/-
Collapsing a segment of a session.

Before and after a collapse, every visible line is read as a pass over the expanded text reads it (`Highlighted`), and that
text is the same. So what folding sees of the lines above and below a segment stays, and its first line is seen with what
all of its lines open and close (`marks_collapsed`). What becomes of the other segments is then a question about two lists
of lines (`Layout.Block`).

`collapseSegment_kept_iff`: they stay as they are exactly if the same blocks are open below the segment;
`collapseSegment_disturbs` is a segment with a line of the other context in it, and a brace on that line that was passed
over before and counts once it is hidden.
-/
import Linewise.Proofs.Fold.Cache
import Linewise.Proofs.Fold.Collapse
import Linewise.Proofs.Hidden.Tallies

namespace Linewise

/-- what stretches depend on in a line: its id, its tally, its context, and whether it is collapsed -/
def FoldLine.seen (line : FoldLine) : LineId × Tally × Bool × Bool := (line.id, line.tally, line.ignored, line.collapsed)

theorem LineState.totalTallies_eq (state : LineState) :
    state.totalTallies = state.tallies + (state.snapshot.map (·.tallies)).getD 0 := by
  unfold totalTallies
  cases state.snapshot with
  | none => exact (add_zero _).symm
  | some snapshot => rfl

namespace Row

/-- the same in a row -/
def seen (kind : Nat) (r : Row) : LineId × Tally × Bool × Bool :=
  (r.id, r.state.totalTallies.get kind, r.state.ignored, r.state.isCollapsed)

/-- what reading lines again leaves alone in a row: its id, the texts in it and behind it, and the tallies kept for those -/
def held (r : Row) : LineId × List Text × Option Tallies := (r.id, r.texts, r.state.snapshot.map (·.tallies))

/-- what folding sees is what was read of the line and what is held behind it -/
theorem seen_eq_of_held {r r' : Row} (hheld : r.held = r'.held) (hread : r.reading = r'.reading) (kind : Nat) :
    r.seen kind = r'.seen kind := by
  simp only [held, Prod.mk.injEq] at hheld
  simp only [reading, Reading.mk.injEq] at hread
  obtain ⟨hid, -, hsnapshot⟩ := hheld
  obtain ⟨-, htallies, hignored⟩ := hread
  have hcollapsed : r.state.isCollapsed = r'.state.isCollapsed := by
    have hsome := congrArg Option.isSome hsnapshot
    rwa [Option.isSome_map, Option.isSome_map] at hsome
  have htotal : r.state.totalTallies = r'.state.totalTallies := by
    rw [LineState.totalTallies_eq, LineState.totalTallies_eq, htallies, hsnapshot]
  rw [seen, seen, hid, htotal, hignored, hcollapsed]

/-- the line that others went behind holds the tallies of all of them -/
theorem totalTallies_covering {r r' : Row} {rows : List Row} (htallies : r'.state.tallies = r.state.tallies)
    (hheld : r'.held = (r.covering rows).held) :
    r'.state.totalTallies = ((r :: rows).map fun x => x.state.totalTallies).sum := by
  have hsnapshot : r'.state.snapshot.map (·.tallies) =
      some ((r.state.snapshot.map (·.tallies)).getD 0 + Snapshot.combined (rows.map kept)) := by
    have hnew : (r.covering rows).held.2.2 =
        some ((r.state.snapshot.getD {}).tallies + Snapshot.combined (rows.map kept)) := rfl
    rw [← hheld] at hnew
    cases hs : r.state.snapshot <;> rwa [hs] at hnew
  have hkept : Snapshot.combined (rows.map kept) = (rows.map fun x => x.state.totalTallies).sum := by
    rw [Snapshot.combined_eq_sum, List.map_map]
    rfl
  calc r'.state.totalTallies
      _ = r.state.tallies + ((r.state.snapshot.map (·.tallies)).getD 0 + Snapshot.combined (rows.map kept)) := by
        rw [LineState.totalTallies_eq, htallies, hsnapshot, Option.getD_some]
      _ = r.state.totalTallies + (rows.map fun x => x.state.totalTallies).sum := by
        rw [← add_assoc, ← LineState.totalTallies_eq, hkept]
      _ = ((r :: rows).map fun x => x.state.totalTallies).sum := by rw [List.map_cons, List.sum_cons]

/-- a line that others went behind is seen with the tallies of all of them -/
theorem seen_covering {r r' : Row} {rows : List Row} (hheld : r'.held = (r.covering rows).held)
    (hread : r'.reading = r.reading) (kind : Nat) :
    r'.seen kind =
      (r.id, ((r :: rows).map fun x => x.state.totalTallies.get kind).sum, r.state.ignored, true) := by
  have hid : r'.id = r.id := congrArg (·.1) hheld
  have hignored : r'.state.ignored = r.state.ignored := congrArg Reading.ignored hread
  have hcollapsed : r'.state.isCollapsed = true := by
    have hsome := congrArg (·.2.2.isSome) hheld
    simpa [held, LineState.isCollapsed, covering] using hsome
  rw [seen, hid, hignored, hcollapsed, totalTallies_covering (congrArg Reading.tallies hread) hheld, Tallies.get_sum,
    List.map_map]
  rfl

theorem held_handed (range : RuleId) (r : Row) : (r.handed range).held = r.held := by
  unfold handed
  split_ifs <;> rfl

theorem held_analyzed (g : Grammar) (ignores : IgnoreRule) (incoming : RuleId) (r : Row) :
    (r.analyzed g ignores incoming).held = r.held := by
  rw [held, held, texts_analyzed]
  simp only [analyzed, Option.map_map]
  rfl

end Row

theorem map_held_modifyHead {f : Row → Row} (hf : ∀ r, (f r).held = r.held) (rows : List Row) :
    (rows.modifyHead f).map Row.held = rows.map Row.held := by
  cases rows with
  | nil => rfl
  | cons r rows => rw [List.modifyHead_cons, List.map_cons, hf, List.map_cons]

/-- a move that only reads leaves what is held where it is -/
theorem Effect.held {g : Grammar} {ignores : IgnoreRule} {m : Move} {rows rows' : List Row}
    (he : Effect g ignores m rows rows') (hm : m.isReading = true) : rows'.map Row.held = rows.map Row.held := by
  cases he with
  | quiet | unknown => rfl
  | analyze above r below =>
    simp only [List.map_append, List.map_cons, Row.held_analyzed, handTo, map_held_modifyHead (Row.held_handed _)]
  | _ => cases hm

/-! ## Rows read before and after -/

section Readings

variable {g : Grammar} {ignores : IgnoreRule} {above below above' below' rows rows' : List Row} {r r' : Row}

/-- rows at the same place of the same expanded text are read the same -/
theorem reading_eq (h : Highlighted g ignores (above ++ r :: below)) (hc : ∀ x ∈ above ++ r :: below, x.state.dirty = false)
    (h' : Highlighted g ignores (above' ++ r' :: below')) (hc' : ∀ x ∈ above' ++ r' :: below', x.state.dirty = false)
    (htexts : textsOfRows (above ++ r :: below) = textsOfRows (above' ++ r' :: below'))
    (habove : textsOfRows above = textsOfRows above') : r.reading = r'.reading := by
  have hread := Session.batch_of_clean h hc
  have hread' := Session.batch_of_clean h' hc'
  rw [htexts, habove] at hread
  exact Option.some.inj (hread.symm.trans hread')

theorem textsOfRows_of_held (h : rows.map Row.held = rows'.map Row.held) : textsOfRows rows = textsOfRows rows' := by
  have htexts : ∀ rows : List Row, textsOfRows rows = (rows.map Row.held).flatMap (·.2.1) := by
    intro rows
    rw [textsOfRows, List.flatMap_map]
    rfl
  rw [htexts, htexts, h]

/-- rows that hold the same, below the same texts, are seen the same -/
theorem map_seen_eq (above above' : List Row) (kind : Nat) (h : Highlighted g ignores (above ++ rows ++ below))
    (hc : ∀ x ∈ above ++ rows ++ below, x.state.dirty = false) (h' : Highlighted g ignores (above' ++ rows' ++ below'))
    (hc' : ∀ x ∈ above' ++ rows' ++ below', x.state.dirty = false)
    (htexts : textsOfRows (above ++ rows ++ below) = textsOfRows (above' ++ rows' ++ below'))
    (habove : textsOfRows above = textsOfRows above') (hheld : rows.map Row.held = rows'.map Row.held) :
    rows.map (Row.seen kind) = rows'.map (Row.seen kind) := by
  -- a row done joins those above
  induction rows generalizing above above' rows' with
  | nil => rw [List.map_eq_nil_iff.1 hheld.symm]
  | cons r rows ih =>
    obtain ⟨r', rows', rfl, hr, hrows⟩ := List.map_eq_cons_iff.1 hheld.symm
    have hcut : above ++ (r :: rows) ++ below = (above ++ [r]) ++ rows ++ below := by simp
    have hcut' : above' ++ (r' :: rows') ++ below' = (above' ++ [r']) ++ rows' ++ below' := by simp
    have hone : r.texts = r'.texts := congrArg (·.2.1) hr.symm
    have hrest := ih (above ++ [r]) (above' ++ [r']) (hcut ▸ h) (hcut ▸ hc) (hcut' ▸ h') (hcut' ▸ hc')
      (hcut ▸ hcut' ▸ htexts) (by simp [habove, hone]) hrows.symm
    rw [List.append_assoc, List.cons_append] at h hc h' hc' htexts
    have hread := reading_eq h hc h' hc' (by rw [htexts, List.append_assoc, List.cons_append]) habove
    rw [List.map_cons, List.map_cons, hrest, Row.seen_eq_of_held hr.symm hread]

end Readings

/-! ## Lines as folding sees them -/

theorem map_seen_foldLinesFrom {s : Sheet} (hs : s.WellFormed) (kind offset : Nat) {ids : List LineId}
    (hids : ∀ id ∈ ids, id ∈ s.document.order) :
    (s.foldLinesFrom kind offset ids).map FoldLine.seen = (ids.map s.row).map (Row.seen kind) := by
  induction ids generalizing offset with
  | nil => rfl
  | cons id ids ih =>
    rw [List.forall_mem_cons] at hids
    have hget := LineTable.get?_eq_some_entry s.table ((hs.table id).2 hids.1)
    simp only [Sheet.foldLinesFrom, List.map_cons, ih _ hids.2, hget, Option.getD_some]
    rfl

theorem map_seen_foldLines {s : Sheet} (hs : s.WellFormed) (kind : Nat) :
    (s.foldLines kind).map FoldLine.seen = s.rows.map (Row.seen kind) :=
  map_seen_foldLinesFrom hs kind 0 fun _ hid => hid

theorem map_id_foldLines {s : Sheet} (hs : s.WellFormed) (kind : Nat) :
    (s.foldLines kind).map FoldLine.id = s.document.order := by
  have hids := congrArg (List.map (·.1)) (map_seen_foldLines hs kind)
  rw [List.map_map, List.map_map] at hids
  exact hids.trans s.map_id_rows

/-- the mark of a line seen so -/
def seenMark (x : LineId × Tally × Bool × Bool) : Mark LineId := ⟨x.1, x.2.1.pair x.2.2.1, x.2.2.1, x.2.2.2⟩

theorem map_idMark (lines : List FoldLine) : lines.map FoldLine.idMark = (lines.map FoldLine.seen).map seenMark := by
  rw [List.map_map]
  rfl

theorem map_tally_of_seen {lines : List FoldLine} {rows : List Row} {kind : Nat}
    (h : lines.map FoldLine.seen = rows.map (Row.seen kind)) :
    lines.map FoldLine.tally = rows.map fun r => r.state.totalTallies.get kind := by
  have hmap := congrArg (List.map (·.2.1)) h
  rw [List.map_map, List.map_map] at hmap
  exact hmap

namespace Session

variable {s t : Session}

theorem Leads.held (hl : Leads (·.isReading) s t) (h : s.WellFormed) : t.rows.map Row.held = s.rows.map Row.held := by
  induction hl with
  | refl => rfl
  | @tail t m hl hm ha ih => exact ((act_effect (hl.wellFormed h).sheet m ha).1.held hm).trans ih

/-- lines that are clean are not analysed again -/
theorem rehighlight_of_clean (h : ∀ id ∈ s.document.order, s.table.isDirty id = false) : s.rehighlight.2 = s := by
  have hall : ∀ ids : List LineId, (∀ id ∈ ids, s.table.isDirty id = false) → s.refreshAll ids = (0, s) := by
    intro ids hids
    induction ids with
    | nil => rfl
    | cons id ids ih =>
      rw [List.forall_mem_cons] at hids
      rw [refreshAll, refresh, if_neg (by simp [hids.1])]
      simp only [ih hids.2]
  rw [rehighlight, hall s.document.order h]
  rfl

theorem rows_clean (h : ∀ id ∈ s.document.order, s.table.isDirty id = false) : ∀ r ∈ s.rows, r.state.dirty = false := by
  intro r hr
  obtain ⟨id, hid, rfl⟩ := List.mem_map.1 hr
  rw [← h id hid, LineTable.isDirty_eq]
  rfl

/-- the segments are those of the layout built from the lines brought up to date -/
theorem segments_eq (h : Reachable s) {kind : Nat} (hk : kind < s.grammar.delimiters.length) :
    (s.segments kind).1 = .ok (Layout.build (s.rehighlight.2.foldLines kind)).segments := by
  unfold segments
  simp only [layout_answer h hk]
  rfl

section Collapse

variable {above hidden below : List Row} {r last : Row}

/-- as many lines are hidden as stand between the two, the last one included -/
theorem collapseClean_count (h : s.toSheet.WellFormed) {above hidden below : List LineId} {start stop : LineId}
    (ho : s.document.order = above ++ start :: (hidden ++ [stop]) ++ below) :
    (s.collapseClean start stop).1 = .ok (hidden.length + 1) := by
  have ho1 : s.document.order = above ++ start :: (hidden ++ [stop] ++ below) := by rw [ho]; simp
  have ho2 : s.document.order = (above ++ start :: hidden) ++ stop :: below := by rw [ho]; simp
  have ho3 : s.document.order = (above ++ [start]) ++ (hidden ++ [stop]) ++ below := by rw [ho]; simp
  obtain ⟨e, he, -⟩ := Document.removeRows_spec h.document ho3 (by simp) (by simp)
  have hlen : (above ++ [start]).length + (hidden ++ [stop]).length - 1 = (above ++ start :: hidden).length := by
    simp only [List.length_append, List.length_cons, List.length_nil]
    omega
  have hlt : ¬ (above ++ start :: hidden).length ≤ above.length := by simp
  rw [hlen, List.length_append, List.length_singleton] at he
  simp only [collapseClean, Sheet.collapse, Document.row?_of_split h.document ho1, Document.row?_of_split h.document ho2,
    if_neg hlt, Sheet.hideRows, he]
  simp

/-- hiding rows behind the one above them -/
theorem collapseClean_split (h : s.toSheet.WellFormed) (hr : s.rows = above ++ r :: (hidden ++ last :: below)) :
    (s.collapseClean r.id last.id).1 = .ok (hidden.length + 1) ∧
      (s.collapseClean r.id last.id).2.rows = above ++ r.covering (hidden ++ [last]) :: dirtyFirst below := by
  have hrow : ∀ rows : List Row, (∀ x ∈ rows, x ∈ s.rows) → (rows.map (·.id)).map s.row = rows :=
    fun rows hrows => Sheet.map_row_id hrows
  have ho : s.document.order =
      above.map (·.id) ++ r.id :: (hidden.map (·.id) ++ [last.id]) ++ below.map (·.id) := by
    rw [← s.toSheet.map_id_rows, hr]
    simp
  refine ⟨by rw [collapseClean_count h ho, List.length_map], ?_⟩
  have hhidden : (hidden.map (·.id) ++ [last.id]).map s.row = hidden ++ [last] := by
    have hall := hrow (hidden ++ [last]) fun x hx => by
      rw [hr]
      simp only [List.mem_append, List.mem_cons, List.not_mem_nil, or_false] at hx ⊢
      tauto
    rwa [List.map_append] at hall
  rw [(collapseClean_rows h ho).2, hhidden, hrow above fun x hx => by rw [hr]; simp [hx],
    hrow below fun x hx => by rw [hr]; simp [hx], Sheet.row_id (r := r) (by rw [hr]; simp)]

/-- **What folding sees once a collapse is brought up to date**: the lines above and below as before, and the line that the
others went behind with the tallies of all of them. -/
theorem seen_collapsed (hs : Reachable s) (hclean : ∀ x ∈ s.rows, x.state.dirty = false) (ht : Reachable t)
    (hg : t.grammar = s.grammar) (hi : t.ignores = s.ignores) (hrows : s.rows = above ++ r :: (hidden ++ last :: below))
    (htrows : t.rows = above ++ r.covering (hidden ++ [last]) :: dirtyFirst below) (kind : Nat) :
    t.rehighlight.2.rows.map (Row.seen kind) = above.map (Row.seen kind) ++
      (r.id, ((r :: (hidden ++ [last])).map fun x => x.state.totalTallies.get kind).sum, r.state.ignored, true) ::
        below.map (Row.seen kind) := by
  have hheld : t.rehighlight.2.rows.map Row.held =
      above.map Row.held ++ (r.covering (hidden ++ [last])).held :: below.map Row.held := by
    rw [(rehighlight_leads t).held ht.wellFormed, htrows, List.map_append, List.map_cons, dirtyFirst,
      map_held_modifyHead (f := Row.dirtied) fun _ => rfl]
  have htexts : textsOfRows t.rehighlight.2.rows = textsOfRows s.rows := by
    rw [textsOfRows_of_held ((rehighlight_leads t).held ht.wellFormed), htrows, hrows]
    simp
  have hh := hs.highlighted
  have hh' : Highlighted s.grammar s.ignores t.rehighlight.2.rows := by
    have hnew := Reachable.highlighted (ht.step .rehighlight)
    have hl := rehighlight_leads t
    rwa [show t.step .rehighlight = t.rehighlight.2 from rfl, hl.grammar, hl.ignores, hg, hi] at hnew
  have hclean' := rehighlight_rows_clean ht.wellFormed
  obtain ⟨above', rest, hrows', habove, hrest⟩ := List.map_eq_append_iff.1 hheld
  obtain ⟨r', below', rfl, hr', hbelow⟩ := List.map_eq_cons_iff.1 hrest
  rw [hrows] at hh hclean htexts
  rw [hrows'] at hh' hclean' htexts
  have hover : textsOfRows above' = textsOfRows above := textsOfRows_of_held habove
  have hread : r'.reading = r.reading := reading_eq hh' hclean' hh hclean htexts hover
  have hseen := Row.seen_covering hr' hread kind
  have hseenAbove : above'.map (Row.seen kind) = above.map (Row.seen kind) :=
    map_seen_eq [] [] kind hh' hclean' hh hclean htexts rfl habove
  have hseenBelow : below'.map (Row.seen kind) = below.map (Row.seen kind) := by
    have hcut : above ++ r :: (hidden ++ last :: below) = (above ++ r :: (hidden ++ [last])) ++ below ++ [] := by simp
    have hcut' : above' ++ r' :: below' = (above' ++ [r']) ++ below' ++ [] := by simp
    have htextsTo : textsOfRows (above' ++ [r']) = textsOfRows (above ++ r :: (hidden ++ [last])) := by
      have hown : r'.texts = r.texts ++ textsOfRows (hidden ++ [last]) := by
        rw [← Row.texts_covering]
        exact congrArg (·.2.1) hr'
      rw [textsOfRows_append, textsOfRows_append, hover, textsOfRows_cons, textsOfRows_cons, hown, textsOfRows_nil,
        List.append_nil]
    rw [hcut] at hh hclean htexts
    rw [hcut'] at hh' hclean' htexts
    exact map_seen_eq _ _ kind hh' hclean' hh hclean htexts htextsTo hbelow
  rw [hrows', List.map_append, List.map_cons, hseenAbove, hseen, hseenBelow]

end Collapse

section Segments

variable {kind : Nat} {segment : Segment} {above hidden below : List FoldLine} {first last : FoldLine}

/-- the rows behind the lines that folding sees -/
theorem rows_of_foldLines (h : s.toSheet.WellFormed)
    (hl : s.foldLines kind = above ++ first :: (hidden ++ last :: below)) :
    ∃ above' r hidden' last' below', s.rows = above' ++ r :: (hidden' ++ last' :: below') ∧
      above.map FoldLine.seen = above'.map (Row.seen kind) ∧ first.seen = r.seen kind ∧
      hidden.map FoldLine.seen = hidden'.map (Row.seen kind) ∧ last.seen = last'.seen kind ∧
      below.map FoldLine.seen = below'.map (Row.seen kind) := by
  have hseen := map_seen_foldLines h kind
  rw [hl, List.map_append, List.map_cons, List.map_append, List.map_cons] at hseen
  obtain ⟨above', rest, hrows, habove, hrest⟩ := List.map_eq_append_iff.1 hseen.symm
  obtain ⟨r, rest, rfl, hfirst, hrest⟩ := List.map_eq_cons_iff.1 hrest
  obtain ⟨hidden', rest, rfl, hhidden, hrest⟩ := List.map_eq_append_iff.1 hrest
  obtain ⟨last', below', rfl, hlast, hbelow⟩ := List.map_eq_cons_iff.1 hrest
  exact ⟨above', r, hidden', last', below', hrows, habove.symm, hfirst.symm, hhidden.symm, hlast.symm, hbelow.symm⟩

/-- a segment that opens nothing at its last line hides the lines below its first one -/
theorem collapseSegment_block (h : s.toSheet.WellFormed)
    (hclean : ∀ id ∈ s.document.order, s.table.isDirty id = false) (hb : segment.has .beginOnly = false)
    (hblock : Layout.Block (s.foldLines kind) segment above first hidden last below) :
    s.collapseSegment segment = s.collapseClean first.id last.id := by
  obtain ⟨hl, hstart, hstop, -, -⟩ := hblock
  have ho := map_id_foldLines h kind
  rw [hl, List.map_append, List.map_cons, List.map_append, List.map_cons] at ho
  have hfirst := Document.row?_of_split h.document ho.symm
  have ho' : s.document.order =
      (above.map FoldLine.id ++ first.id :: hidden.map FoldLine.id) ++ last.id :: below.map FoldLine.id := by
    rw [← ho]
    simp
  have hlast := Document.row?_of_split h.document ho'
  have hline : segment.start.line = first.id := congrArg Prod.fst hstart
  have hline' : segment.stop.line = last.id := congrArg Prod.fst hstop
  have hlt : (above.map FoldLine.id).length < (above.map FoldLine.id ++ first.id :: hidden.map FoldLine.id).length := by
    simp
  have hends : Sheet.block? s.document segment = .ok (some (first.id, last.id)) := by
    simp only [Sheet.block?, hline, hline', hfirst, hlast, if_neg (Nat.not_lt.2 hlt.le), hb, Bool.false_and,
      Bool.false_eq_true, if_false, if_pos hlt]
  rw [collapseSegment, hends]
  simp only [collapse, rehighlight_of_clean hclean]

/-- the lines of a layout once a segment of it is collapsed -/
theorem marks_collapsed (h : Reachable s) (hclean : ∀ id ∈ s.document.order, s.table.isDirty id = false)
    (hb : segment.has .beginOnly = false)
    (hblock : Layout.Block (s.foldLines kind) segment above first hidden last below) :
    (s.collapseSegment segment).1 = .ok (hidden.length + 1) ∧
      ((s.collapseSegment segment).2.rehighlight.2.foldLines kind).map FoldLine.idMark =
        Layout.collapsedMarks above first (hidden ++ [last]) below := by
  have hw := h.wellFormed.sheet
  have ht : Reachable (s.collapseSegment segment).2 := h.step (.collapseSegment segment)
  rw [collapseSegment_block hw hclean hb hblock] at ht ⊢
  obtain ⟨above', r, hidden', last', below', hrows, habove, hfirst, hhidden, hlast, hbelow⟩ :=
    rows_of_foldLines hw hblock.lines
  have hid : first.id = r.id := congrArg (·.1) hfirst
  have hid' : last.id = last'.id := congrArg (·.1) hlast
  have hignored : first.ignored = r.state.ignored := congrArg (·.2.2.1) hfirst
  have hspan : (first :: (hidden ++ [last])).map FoldLine.seen = (r :: (hidden' ++ [last'])).map (Row.seen kind) := by
    simp only [List.map_cons, List.map_append, List.map_nil, hfirst, hhidden, hlast]
  have hlen : hidden.length = hidden'.length := by
    have hmap := congrArg List.length hhidden
    rwa [List.length_map, List.length_map] at hmap
  obtain ⟨hcount, htrows⟩ := collapseClean_split hw hrows
  rw [hid, hid'] at ht ⊢
  have hkeeps := act_keeps s (.hide r.id last'.id)
  have hseen := seen_collapsed h (rows_clean hclean) ht hkeeps.grammar hkeeps.ignores hrows htrows kind
  have hre : Reachable (s.collapseClean r.id last'.id).2.rehighlight.2 := ht.step .rehighlight
  refine ⟨by rw [hcount, hlen], ?_⟩
  rw [map_idMark, map_seen_foldLines hre.wellFormed.sheet, hseen, ← habove, ← hbelow, ← map_tally_of_seen hspan,
    List.map_append, List.map_cons, ← map_idMark, ← map_idMark, Layout.collapsedMarks, Layout.gathered, hid, hignored]
  rfl

/-- **When collapsing a segment leaves the other segments as they are.** A segment of more than one line that a closing
token ended, with no block opened at its end, is collapsed once no line is dirty. Exactly if the same blocks are then open
below its first line as were below its last one, the segments are: those of before but for the ones in the segment, with
ends on hidden lines moved to its first line, those open at the end of the document, and its first line alone. So it is if
no line of the segment is in the other context, but for lines without tokens. -/
theorem collapseSegment_kept_iff (h : Reachable s) (hclean : ∀ id ∈ s.document.order, s.table.isDirty id = false)
    (hk : kind < s.grammar.delimiters.length) (hended : segment ∈ Layout.ended (s.foldLines kind))
    (hrows : segment.start.row < segment.stop.row) (hb : segment.has .beginOnly = false) :
    ∃ before t after, (s.segments kind).1 = .ok before ∧
      before.Perm (Layout.ended (s.foldLines kind) ++ Layout.unended (s.foldLines kind)) ∧
      s.collapseSegment segment = (.ok (segment.stop.row - segment.start.row), t) ∧ (t.segments kind).1 = .ok after ∧
      ((after.map Segment.lines : Multiset _) = Layout.keptStretches (s.foldLines kind) segment t.document.order ↔
        Layout.SameOpen (s.foldLines kind) (t.rehighlight.2.foldLines kind) segment) ∧
      (Layout.OneContext (s.foldLines kind) segment →
        (after.map Segment.lines : Multiset _) = Layout.keptStretches (s.foldLines kind) segment t.document.order) := by
  obtain ⟨above, first, hidden, last, below, hblock⟩ := Layout.exists_block hended hrows hb
  obtain ⟨hcount, hmarks⟩ := marks_collapsed h hclean hb hblock
  set t := (s.collapseSegment segment).2 with htdef
  have ht : Reachable t := h.step (.collapseSegment segment)
  have hre : Reachable t.rehighlight.2 := ht.step .rehighlight
  have hk' : kind < t.grammar.delimiters.length := by
    rwa [(collapseSegment_leads h.wellFormed segment).grammar]
  have hids : ((s.foldLines kind).map FoldLine.id).Nodup := by
    rw [map_id_foldLines h.wellFormed.sheet]
    exact h.wellFormed.sheet.document.nodup
  have hvisible : (t.rehighlight.2.foldLines kind).map FoldLine.id = t.document.order := by
    rw [map_id_foldLines hre.wellFormed.sheet, rehighlight_document]
  have hanswer : s.collapseSegment segment = (.ok (segment.stop.row - segment.start.row), t) := by
    have hfrom : segment.start.row = above.length := congrArg Prod.snd hblock.start
    have hto : segment.stop.row = above.length + 1 + hidden.length := congrArg Prod.snd hblock.stop
    have hlen : segment.stop.row - segment.start.row = hidden.length + 1 := by omega
    rw [hlen, ← hcount, htdef]
  have hiff := Layout.build_eq_kept_iff hblock hids hmarks
  rw [hvisible] at hiff
  refine ⟨_, t, _, segments_eq h hk, ?_, hanswer, segments_eq ht hk', hiff, ?_⟩
  · rw [rehighlight_of_clean hclean]
    exact Layout.build_perm _
  · exact fun hcontext => hiff.2 (Layout.sameOpen_of_context hblock hids hmarks hcontext)

end Segments

/-- a block in another one -/
def nestedSession : Session :=
  (start commentsAndBraces (.ofText ['{', '\n', '{', '\n', '}', '\n', '}'])).run [.rehighlight]

/-- the block inside -/
def innerBlock : Segment := ⟨⟨⟨1⟩, 1, 1, 2, true⟩, ⟨⟨2⟩, 2, 2, 5, true⟩, .none⟩

/-- the block around it keeps its ends -/
theorem collapseSegment_kept_iff_nested :
    Reachable nestedSession ∧ innerBlock ∈ Layout.ended (nestedSession.foldLines 0) ∧
      Layout.OneContext (nestedSession.foldLines 0) innerBlock ∧
      ∃ t after, nestedSession.collapseSegment innerBlock = (.ok 1, t) ∧ (t.segments 0).1 = .ok after ∧
        (after.map Segment.lines : Multiset (LineId × LineId)) = {(⟨1⟩, ⟨1⟩), (⟨0⟩, ⟨3⟩)} := by
  have hs : Reachable nestedSession := (Reachable.start _ (.ofText _)).step .rehighlight
  have hended : innerBlock ∈ Layout.ended (nestedSession.foldLines 0) := by decide +kernel
  have hcontext : Layout.OneContext (nestedSession.foldLines 0) innerBlock := by decide +kernel
  obtain ⟨_, t, after, -, -, hanswer, hafter, -, hkept⟩ :=
    collapseSegment_kept_iff hs (by decide +kernel) (by decide +kernel) hended (by decide) (by decide)
  have ht : t = (nestedSession.collapseSegment innerBlock).2 := by rw [hanswer]
  refine ⟨hs, hended, hcontext, t, after, hanswer, hafter, ?_⟩
  rw [hkept hcontext, ht]
  decide +kernel

/-- a block with a line in it that begins in a comment, and a brace behind the comment -/
def spilledSession : Session :=
  (start commentsAndBraces (.ofText ['{', '\n', '<', '>', '{', '\n', '}', '\n', 'x'])).run [.rehighlight]

/-- the only block: the line in it is passed over -/
def outerBlock : Segment := ⟨⟨⟨0⟩, 0, 0, 0, true⟩, ⟨⟨2⟩, 2, 2, 7, true⟩, .none⟩

/-- once the line is hidden its brace counts, and opens a block that runs to the end of the document -/
theorem collapseSegment_disturbs :
    Reachable spilledSession ∧ (∀ id ∈ spilledSession.document.order, spilledSession.table.isDirty id = false) ∧
      outerBlock ∈ Layout.ended (spilledSession.foldLines 0) ∧ outerBlock.start.row < outerBlock.stop.row ∧
      outerBlock.has .beginOnly = false ∧
      ∃ after, ((spilledSession.collapseSegment outerBlock).2.segments 0).1 = .ok after ∧
        (after.map Segment.lines : Multiset _) ≠ Layout.keptStretches (spilledSession.foldLines 0) outerBlock
          (spilledSession.collapseSegment outerBlock).2.document.order := by
  have hs : Reachable spilledSession := (Reachable.start _ (.ofText _)).step .rehighlight
  have ht : Reachable (spilledSession.collapseSegment outerBlock).2 := hs.step (.collapseSegment outerBlock)
  refine ⟨hs, by decide +kernel, by decide +kernel, by decide, by decide, _, segments_eq ht (by decide +kernel), ?_⟩
  decide +kernel

end Session

end Linewise
