/-
Folding all blocks at once.

Blocks are folded one after the other, inner ones first. The ends of a segment are lines that were visible when the
pass began and may be hidden by now; `visible` is the line that holds such a line. `Tracks` says that the lines of the
beginning are all held by lines of the document, in the same order: folding a block puts its lines behind the first of
them, and the rows of holders are squeezed but never swapped (`Tracks.covering`). So a segment that began no later
than it ended still does, and no block of the pass is refused.

Main statement: `collapseBlocks_ok`, for every kind of delimiter that the grammar has.
-/
import Linewise.Proofs.Fold.CollapseSegment
import Linewise.Proofs.Fold.Coordinates

namespace Linewise

/-! ## Segments begin no later than they end -/

namespace Layout

variable {lines : List FoldLine}

theorem BeginsLine.row_lt {m : Marker} (h : BeginsLine lines m) : m.row < lines.length := by
  obtain ⟨above, line, below, rfl, rfl⟩ := h
  rw [startOf_state]
  simp

theorem start_row_le {segment : Segment} (h : segment ∈ (build lines).segments) :
    segment.start.row ≤ segment.stop.row := by
  rcases List.mem_append.1 ((build_perm lines).mem_iff.1 h) with hended | hunended
  · obtain ⟨front, line, below, rfl, hself | hclosed⟩ := mem_ended hended
    · unfold FoldState.selfOf at hself
      split_ifs at hself
      · rw [List.mem_singleton.1 hself]
        exact Nat.le_refl _
      · cases hself
    · -- what a line closes was opened above it
      obtain ⟨block, hblock, rfl⟩ := List.mem_map.1 hclosed
      have hlt := ((state_marked front).stack block (List.mem_of_mem_take hblock)).row_lt
      have hrow : ((state front).stopOf line).row = front.length := state_row front
      rw [hrow]
      exact hlt.le
  · rcases List.eq_nil_or_concat lines with rfl | ⟨front, last, rfl⟩
    · cases hunended
    · rw [List.concat_eq_append] at hunended
      have hend : (state (front ++ [last])).lastEnd = some ((state front).stopOf last) := by
        rw [state_append]
        rfl
      simp only [unended, hend] at hunended
      obtain ⟨block, hblock, rfl⟩ := List.mem_map.1 hunended
      have hlt := ((state_marked (front ++ [last])).stack block hblock).row_lt
      have hrow : ((state front).stopOf last).row = front.length := state_row front
      rw [List.length_append, List.length_singleton] at hlt
      rw [hrow]
      exact Nat.le_of_lt_succ hlt

end Layout

/-- the ends of a segment are among the lines, and it begins no later than it ends -/
def Segment.RunsIn (lines : List LineId) (segment : Segment) : Prop :=
  ∃ first last : Nat, first ≤ last ∧ lines[first]? = some segment.start.line ∧ lines[last]? = some segment.stop.line

/-- a segment of a document that begins no later than it ends can be folded, or has nothing to hide -/
theorem Sheet.block?_of_rows {d : Document} (h : d.WellFormed) {segment : Segment} {first last : Nat}
    (hf : d.row? segment.start.line = some first) (hl : d.row? segment.stop.line = some last) (hle : first ≤ last) :
    Sheet.block? d segment = .ok none ∨ ∃ stop final, Sheet.block? d segment = .ok (some (segment.start.line, stop)) ∧
      d.row? stop = some final ∧ first < final := by
  simp only [Sheet.block?, hf, hl, if_neg (Nat.not_lt.2 hle)]
  by_cases hbegin : (segment.has .beginOnly && first < last) = true
  · -- the last line opens the next block, so the one above it is the last one hidden
    rw [if_pos hbegin]
    have hlt : first < last := by
      rw [Bool.and_eq_true, decide_eq_true_eq] at hbegin
      exact hbegin.2
    have hlen : last < d.order.length := (List.getElem?_eq_some_iff.1 (Document.getElem?_of_row? h hl)).1
    obtain ⟨line, hline⟩ : ∃ line, d.order[last - 1]? = some line := by
      rw [List.getElem?_eq_getElem (by omega)]
      exact ⟨_, rfl⟩
    rw [show d.lineAt? (last - 1) = some line from hline]
    by_cases hmore : first < last - 1
    · exact Or.inr ⟨line, last - 1, by simp only [if_pos hmore], Document.row?_of_getElem? h hline, hmore⟩
    · exact Or.inl (by simp only [if_neg hmore])
  · rw [if_neg hbegin]
    by_cases hmore : first < last
    · exact Or.inr ⟨segment.stop.line, last, by rw [if_pos hmore], hl, hmore⟩
    · exact Or.inl (by rw [if_neg hmore])

namespace Session

/-! ## The line that holds a line -/

theorem holderOf_of_none {holders : Holders} {id : LineId} (h : holders.lookup id = none) (fuel : Nat) :
    holderOf holders fuel id = id := by
  cases fuel with
  | zero => rfl
  | succ fuel => simp only [holderOf, h]

theorem holderOf_of_some {holders : Holders} {id holder : LineId} (h : holders.lookup id = some holder) (fuel : Nat) :
    holderOf holders (fuel + 1) id = holderOf holders fuel holder := by
  simp only [holderOf, h]

/-- once the chain ends, more fuel makes no difference -/
theorem holderOf_add {holders : Holders} {id : LineId} {fuel : Nat}
    (h : holders.lookup (holderOf holders fuel id) = none) (more : Nat) :
    holderOf holders (fuel + more) id = holderOf holders fuel id := by
  induction fuel generalizing id with
  | zero => exact holderOf_of_none h _
  | succ fuel ih =>
    cases hid : holders.lookup id with
    | none => rw [holderOf_of_none hid, holderOf_of_none hid]
    | some holder =>
      rw [Nat.succ_add, holderOf_of_some hid, holderOf_of_some hid]
      rw [holderOf_of_some hid] at h
      exact ih h

/-- the line that a line is held by, once all are -/
def visible (holders : Holders) (id : LineId) : LineId := holderOf holders (holders.length + 1) id

/-- the holders once further lines go behind a line -/
def hold (holders : Holders) (start : LineId) (hidden : List LineId) : Holders := hidden.map (·, start) ++ holders

theorem lookup_hold (holders : Holders) (start : LineId) (hidden : List LineId) (id : LineId) :
    (hold holders start hidden).lookup id = if id ∈ hidden then some start else holders.lookup id := by
  induction hidden with
  | nil => rfl
  | cons first hidden ih =>
    rw [hold, List.map_cons, List.cons_append, List.lookup_cons, ← hold, ih]
    by_cases hfirst : id = first
    · simp [hfirst]
    · simp [hfirst, beq_false_of_ne hfirst]

/-- the lines of the beginning are held by lines of the document, in the same order -/
structure Tracks (lines : List LineId) (d : Document) (holders : Holders) : Prop where
  shown : ∀ id ∈ d.order, holders.lookup id = none
  held : ∀ id ∈ lines, ∃ fuel ≤ holders.length, holderOf holders fuel id ∈ d.order
  sorted : lines.Pairwise fun a b => ∀ first last, d.row? (visible holders a) = some first →
    d.row? (visible holders b) = some last → first ≤ last

namespace Tracks

variable {lines : List LineId} {d e : Document} {holders : Holders} {above hidden below : List LineId} {start : LineId}

theorem visible_eq (h : Tracks lines d holders) {id : LineId} {fuel : Nat} (hfuel : fuel ≤ holders.length)
    (hid : holderOf holders fuel id ∈ d.order) : visible holders id = holderOf holders fuel id := by
  have hmore := holderOf_add (h.shown _ hid) (holders.length + 1 - fuel)
  rwa [Nat.add_sub_cancel' (by omega)] at hmore

theorem visible_mem (h : Tracks lines d holders) {id : LineId} (hid : id ∈ lines) : visible holders id ∈ d.order := by
  obtain ⟨fuel, hfuel, hmem⟩ := h.held id hid
  rw [h.visible_eq hfuel hmem]
  exact hmem

/-- at the beginning every line holds itself -/
theorem refl (h : d.WellFormed) : Tracks d.order d [] := by
  refine ⟨fun _ _ => rfl, fun id hid => ⟨0, Nat.le_refl _, hid⟩, ?_⟩
  rw [List.pairwise_iff_getElem]
  intro i j hi hj hlt first last hfirst hlast
  have hfirst' := Document.row?_of_getElem? h (List.getElem?_eq_getElem hi)
  have hlast' := Document.row?_of_getElem? h (List.getElem?_eq_getElem hj)
  rw [visible, holderOf_of_none rfl] at hfirst hlast
  cases hfirst'.symm.trans hfirst
  cases hlast'.symm.trans hlast
  exact hlt.le

/-- a line whose holder goes behind another one is held by that one -/
theorem holderOf_hold (h : Tracks lines d holders) (hstart : start ∈ d.order) (hout : start ∉ hidden)
    (hsub : ∀ id ∈ hidden, id ∈ d.order) {id : LineId} {fuel : Nat} (hid : holderOf holders fuel id ∈ d.order) :
    (holderOf holders fuel id ∉ hidden →
        holderOf (hold holders start hidden) fuel id = holderOf holders fuel id) ∧
      (holderOf holders fuel id ∈ hidden → holderOf (hold holders start hidden) (fuel + 1) id = start) := by
  have hend : ∀ fuel, holderOf (hold holders start hidden) fuel start = start := by
    intro fuel
    apply holderOf_of_none
    rw [lookup_hold, if_neg hout]
    exact h.shown start hstart
  -- the chain of a line is followed as before, for the lines that go behind `start` were the ends of chains
  induction fuel generalizing id with
  | zero =>
    refine ⟨fun _ => rfl, fun hin => holderOf_of_some ?_ 0⟩
    rw [lookup_hold, if_pos (show id ∈ hidden from hin)]
  | succ fuel ih =>
    cases hlookup : holders.lookup id with
    | none =>
      rw [holderOf_of_none hlookup] at hid ⊢
      refine ⟨fun hnot => holderOf_of_none ?_ _, fun hin => ?_⟩
      · rw [lookup_hold, if_neg hnot]
        exact hlookup
      · have hheld : (hold holders start hidden).lookup id = some start := by rw [lookup_hold, if_pos hin]
        rw [holderOf_of_some hheld]
        exact hend (fuel + 1)
    | some holder =>
      have hnot : id ∉ hidden := by
        intro hin
        rw [h.shown id (hsub id hin)] at hlookup
        cases hlookup
      have hlookup' : (hold holders start hidden).lookup id = some holder := by rw [lookup_hold, if_neg hnot, hlookup]
      rw [holderOf_of_some hlookup] at hid ⊢
      rw [holderOf_of_some hlookup', holderOf_of_some hlookup']
      exact ih hid

/-- the row of a line once `count` lines below row `first` went behind the line at that row -/
def squeezed (first count row : Nat) : Nat :=
  if row ≤ first then row else if row ≤ first + count then first else row - count

theorem squeezed_mono {first count row row' : Nat} (h : row ≤ row') :
    squeezed first count row ≤ squeezed first count row' := by
  unfold squeezed
  split_ifs <;> omega

theorem row?_squeezed (hd : d.WellFormed) (he : e.WellFormed) (ho : d.order = above ++ start :: (hidden ++ below))
    (heo : e.order = above ++ start :: below) {line : LineId} {row : Nat} (hrow : d.row? line = some row) :
    e.row? (if line ∈ hidden then start else line) = some (squeezed above.length hidden.length row) := by
  have hn := hd.nodup
  rw [ho, List.nodup_append, List.nodup_cons, List.nodup_append] at hn
  obtain ⟨-, ⟨hstart, -, -, hapart⟩, habove⟩ := hn
  have hline : line ∈ d.order := List.mem_of_getElem? (Document.getElem?_of_row? hd hrow)
  rw [ho, List.mem_append, List.mem_cons, List.mem_append] at hline
  rcases hline with hin | rfl | hin | hin
  · have hnot : line ∉ hidden := fun hm => habove line hin line (by simp [hm]) rfl
    obtain ⟨front, rest, rfl⟩ := List.append_of_mem hin
    have ho' : d.order = front ++ line :: (rest ++ start :: (hidden ++ below)) := by rw [ho]; simp
    have heo' : e.order = front ++ line :: (rest ++ start :: below) := by rw [heo]; simp
    cases hrow.symm.trans (Document.row?_of_split hd ho')
    rw [if_neg hnot, Document.row?_of_split he heo', squeezed, if_pos (by simp)]
  · have hnot : line ∉ hidden := fun hm => hstart (List.mem_append_left _ hm)
    cases hrow.symm.trans (Document.row?_of_split hd ho)
    rw [if_neg hnot, Document.row?_of_split he heo, squeezed, if_pos (Nat.le_refl _)]
  · rw [if_pos hin, Document.row?_of_split he heo]
    obtain ⟨front, rest, rfl⟩ := List.append_of_mem hin
    have ho' : d.order = (above ++ start :: front) ++ line :: (rest ++ below) := by rw [ho]; simp
    cases hrow.symm.trans (Document.row?_of_split hd ho')
    simp only [List.length_append, List.length_cons, squeezed]
    split_ifs <;> first | rfl | omega
  · have hnot : line ∉ hidden := fun hm => hapart line hm line hin rfl
    obtain ⟨front, rest, rfl⟩ := List.append_of_mem hin
    have ho' : d.order = (above ++ start :: (hidden ++ front)) ++ line :: rest := by rw [ho]; simp
    have heo' : e.order = (above ++ start :: front) ++ line :: rest := by rw [heo]; simp
    cases hrow.symm.trans (Document.row?_of_split hd ho')
    rw [if_neg hnot, Document.row?_of_split he heo']
    simp only [List.length_append, List.length_cons, squeezed]
    split_ifs <;> first | omega | (congr 1; omega)

/-- once lines go behind `start`, a line that one of them held is held by `start`, and others are held as before -/
theorem held_hold (h : Tracks lines d holders) (hstart : start ∈ d.order) (hout : start ∉ hidden)
    (hsub : ∀ id ∈ hidden, id ∈ d.order) {id : LineId} (hid : id ∈ lines) :
    ∃ fuel ≤ (hold holders start hidden).length, holderOf (hold holders start hidden) fuel id =
      if visible holders id ∈ hidden then start else visible holders id := by
  have hlen : (hold holders start hidden).length = hidden.length + holders.length := by simp [hold]
  obtain ⟨fuel, hfuel, hmem⟩ := h.held id hid
  obtain ⟨hstay, hmove⟩ := h.holderOf_hold hstart hout hsub hmem
  rw [h.visible_eq hfuel hmem]
  by_cases hin : holderOf holders fuel id ∈ hidden
  · have hpos := List.length_pos_of_mem hin
    exact ⟨fuel + 1, by omega, by rw [hmove hin, if_pos hin]⟩
  · exact ⟨fuel, by omega, by rw [hstay hin, if_neg hin]⟩

theorem visible_hold (h : Tracks lines d holders) (hstart : start ∈ d.order) (hout : start ∉ hidden)
    (hsub : ∀ id ∈ hidden, id ∈ d.order) {id : LineId} (hid : id ∈ lines) :
    visible (hold holders start hidden) id = if visible holders id ∈ hidden then start else visible holders id := by
  obtain ⟨fuel, hfuel, heq⟩ := h.held_hold hstart hout hsub hid
  have hend : (hold holders start hidden).lookup (holderOf (hold holders start hidden) fuel id) = none := by
    rw [heq, lookup_hold]
    by_cases hin : visible holders id ∈ hidden
    · rw [if_pos hin, if_neg hout]
      exact h.shown start hstart
    · rw [if_neg hin, if_neg hin]
      exact h.shown _ (h.visible_mem hid)
  have hmore := holderOf_add hend ((hold holders start hidden).length + 1 - fuel)
  rw [Nat.add_sub_cancel' (by omega)] at hmore
  rw [← heq]
  exact hmore

/-- **Hiding lines keeps track of all of them.** -/
theorem covering (h : Tracks lines d holders) (hd : d.WellFormed) (he : e.WellFormed)
    (ho : d.order = above ++ start :: (hidden ++ below)) (heo : e.order = above ++ start :: below) :
    Tracks lines e (hold holders start hidden) := by
  have hn := hd.nodup
  rw [ho, List.nodup_append, List.nodup_cons, List.nodup_append] at hn
  obtain ⟨-, ⟨hout, -, -, hapart⟩, habove⟩ := hn
  have hstart : start ∈ d.order := by rw [ho]; simp
  have hout : start ∉ hidden := fun hm => hout (List.mem_append_left _ hm)
  have hsub : ∀ id ∈ hidden, id ∈ d.order := by
    intro id hid
    rw [ho]
    simp [hid]
  have hkeep : ∀ id ∈ d.order, (if id ∈ hidden then start else id) ∈ e.order := by
    intro id hid
    rw [ho, List.mem_append, List.mem_cons, List.mem_append] at hid
    rw [heo, List.mem_append, List.mem_cons]
    split_ifs with hin
    · exact Or.inr (Or.inl rfl)
    · rcases hid with hid | hid | hid | hid
      · exact Or.inl hid
      · exact Or.inr (Or.inl hid)
      · exact absurd hid hin
      · exact Or.inr (Or.inr hid)
  refine ⟨?_, ?_, ?_⟩
  · intro id hid
    rw [heo, List.mem_append, List.mem_cons] at hid
    have hid' : id ∈ d.order ∧ id ∉ hidden := by
      rw [ho, List.mem_append, List.mem_cons, List.mem_append]
      rcases hid with hid | rfl | hid
      · exact ⟨Or.inl hid, fun hm => habove id hid id (by simp [hm]) rfl⟩
      · exact ⟨Or.inr (Or.inl rfl), hout⟩
      · exact ⟨Or.inr (Or.inr (Or.inr hid)), fun hm => hapart id hm id hid rfl⟩
    rw [lookup_hold, if_neg hid'.2]
    exact h.shown id hid'.1
  · intro id hid
    obtain ⟨fuel, hfuel, heq⟩ := h.held_hold hstart hout hsub hid
    exact ⟨fuel, hfuel, heq ▸ hkeep _ (h.visible_mem hid)⟩
  · have hvisible : ∀ id ∈ lines, ∀ row, e.row? (visible (hold holders start hidden) id) = some row →
        ∃ row', d.row? (visible holders id) = some row' ∧ row = squeezed above.length hidden.length row' := by
      intro id hid row hrow
      rw [h.visible_hold hstart hout hsub hid] at hrow
      obtain ⟨row', hrow'⟩ := List.mem_iff_getElem?.1 (h.visible_mem hid)
      have hrow' := Document.row?_of_getElem? hd hrow'
      refine ⟨row', hrow', ?_⟩
      rw [row?_squeezed hd he ho heo hrow'] at hrow
      exact (Option.some.inj hrow).symm
    refine h.sorted.imp_of_mem fun {a b} ha hb hab first last hrow hrow' => ?_
    obtain ⟨first', hfirst', rfl⟩ := hvisible a ha first hrow
    obtain ⟨last', hlast', rfl⟩ := hvisible b hb last hrow'
    exact squeezed_mono (hab first' last' hfirst' hlast')

/-- the ends of a segment are held by lines of the document, the first by one that comes no later -/
theorem rows (h : Tracks lines d holders) (hd : d.WellFormed) {segment : Segment} (hs : segment.RunsIn lines) :
    ∃ first last, d.row? (visible holders segment.start.line) = some first ∧
      d.row? (visible holders segment.stop.line) = some last ∧ first ≤ last := by
  obtain ⟨i, j, hle, hi, hj⟩ := hs
  obtain ⟨first, hfirst⟩ := List.mem_iff_getElem?.1 (h.visible_mem (List.mem_of_getElem? hi))
  obtain ⟨last, hlast⟩ := List.mem_iff_getElem?.1 (h.visible_mem (List.mem_of_getElem? hj))
  have hfirst := Document.row?_of_getElem? hd hfirst
  have hlast := Document.row?_of_getElem? hd hlast
  refine ⟨first, last, hfirst, hlast, ?_⟩
  obtain ⟨hi', hgeti⟩ := List.getElem?_eq_some_iff.1 hi
  obtain ⟨hj', hgetj⟩ := List.getElem?_eq_some_iff.1 hj
  rcases Nat.lt_or_eq_of_le hle with hlt | rfl
  · have hsorted := List.pairwise_iff_getElem.1 h.sorted i j hi' hj' hlt
    rw [hgeti, hgetj] at hsorted
    exact hsorted first last hfirst hlast
  · have hsame : segment.start.line = segment.stop.line := hgeti.symm.trans hgetj
    rw [hsame, hlast] at hfirst
    cases hfirst
    exact Nat.le_refl _

end Tracks

/-! ## The pass -/

variable {s : Session}

/-- hiding lines behind the one above them succeeds, and takes them out of the order -/
theorem collapseClean_ok (h : s.WellFormed) {above hidden below : List LineId} {start stop : LineId}
    (ho : s.document.order = above ++ start :: (hidden ++ [stop]) ++ below) :
    (∃ count, (s.collapseClean start stop).1 = .ok count) ∧
      (s.collapseClean start stop).2.document.WellFormed ∧
      (s.collapseClean start stop).2.document.order = above ++ start :: below := by
  obtain ⟨hw, hrows⟩ := collapseClean_rows h.sheet ho
  refine ⟨⟨_, collapseClean_count h.sheet ho⟩, hw.document, ?_⟩
  have hdirty : ∀ rows : List Row, (dirtyFirst rows).map (·.id) = rows.map (·.id) := by
    intro rows
    cases rows <;> rfl
  rw [← Sheet.map_id_rows, hrows, List.map_append, List.map_cons, hdirty, List.map_map, List.map_map]
  simp [Function.comp_def, Sheet.row, Row.covering]

/-- the session once lines are brought up to date and hidden behind the one above them -/
def foldBehind (s : Session) (start : LineId) (hidden : List LineId) (stop : LineId) : Session :=
  ((s.refreshAll (start :: (hidden ++ [stop]))).2.collapseClean start stop).2

section Fold

variable {above hidden below : List LineId} {start stop : LineId}

theorem refreshAll_rows (h : s.WellFormed) (ho : s.document.order = above ++ start :: (hidden ++ [stop]) ++ below) :
    s.document.row? start = some above.length ∧ s.document.row? stop = some (above.length + 1 + hidden.length) ∧
      (s.document.order.drop above.length).take (above.length + 1 + hidden.length - above.length + 1) =
        start :: (hidden ++ [stop]) := by
  have ho1 : s.document.order = above ++ start :: (hidden ++ [stop] ++ below) := by rw [ho]; simp
  have ho2 : s.document.order = (above ++ start :: hidden) ++ stop :: below := by rw [ho]; simp
  have hlen : (above ++ start :: hidden).length = above.length + 1 + hidden.length := by simp; omega
  refine ⟨Document.row?_of_split h.sheet.document ho1, hlen ▸ Document.row?_of_split h.sheet.document ho2, ?_⟩
  rw [ho, List.append_assoc, List.drop_left, List.take_append_of_le_length (by simp; omega),
    List.take_of_length_le (by simp; omega)]

theorem foldBehind_leads (h : s.WellFormed) (ho : s.document.order = above ++ start :: (hidden ++ [stop]) ++ below) :
    Leads (·.isNeutral) s (s.foldBehind start hidden stop) := by
  obtain ⟨hfirst, hlast, hspan⟩ := refreshAll_rows h ho
  have hallows := allows_hide_of_refreshed h hfirst hlast
  rw [hspan] at hallows
  exact (refreshAll_leads s _).neutral.tail (.hide start stop) rfl hallows

theorem foldBehind_order (h : s.WellFormed) (ho : s.document.order = above ++ start :: (hidden ++ [stop]) ++ below) :
    (s.foldBehind start hidden stop).document.order = above ++ start :: below := by
  have hread := (refreshAll_leads s (start :: (hidden ++ [stop]))).wellFormed h
  rw [← refreshAll_document s (start :: (hidden ++ [stop]))] at ho
  exact (collapseClean_ok hread ho).2.2

/-- **Folding a block is a step of the pass**, which goes on with one block more done. -/
theorem collapseEach_fold (h : s.WellFormed) (ho : s.document.order = above ++ start :: (hidden ++ [stop]) ++ below)
    {holders : Holders} {last : Option Segment} {segment : Segment} (hskip : ¬ last.any (·.contains segment) = true)
    (hblock : Sheet.block? s.document (resolve holders segment) = .ok (some (start, stop))) (rest : List Segment) :
    s.collapseEach holders last (segment :: rest) =
      (((s.foldBehind start hidden stop).collapseEach (hold holders start (hidden ++ [stop])) (some segment) rest).1.map
          (· + 1),
        ((s.foldBehind start hidden stop).collapseEach (hold holders start (hidden ++ [stop])) (some segment) rest).2) := by
  obtain ⟨hfirst, hlast, hspan⟩ := refreshAll_rows h ho
  have hread := (refreshAll_leads s (start :: (hidden ++ [stop]))).wellFormed h
  obtain ⟨⟨count, hok⟩, -, -⟩ := collapseClean_ok hread ((refreshAll_document s _).symm ▸ ho)
  have hclean : (s.refreshAll (start :: (hidden ++ [stop]))).2.collapseClean start stop =
      (.ok count, s.foldBehind start hidden stop) := Prod.ext hok rfl
  rw [collapseEach, if_neg hskip, hblock]
  simp only [hfirst, hlast, hspan, hclean, List.drop_succ_cons, List.drop_zero]
  rfl

end Fold

/-- **No block is refused on the way**, whatever was folded before. -/
theorem collapseEach_ok {lines : List LineId} (h : s.WellFormed) {holders : Holders}
    (ht : Tracks lines s.document holders) (last : Option Segment) {segments : List Segment}
    (hs : ∀ segment ∈ segments, segment.RunsIn lines) :
    ∃ count, (s.collapseEach holders last segments).1 = .ok count := by
  induction segments generalizing s holders last with
  | nil => exact ⟨0, rfl⟩
  | cons segment rest ih =>
    rw [List.forall_mem_cons] at hs
    by_cases hskip : last.any (·.contains segment) = true
    · rw [collapseEach, if_pos hskip]
      exact ih h ht last hs.2
    · obtain ⟨first, final, hfirst, hfinal, hle⟩ := ht.rows h.sheet.document hs.1
      have hstart : s.document.row? (resolve holders segment).start.line = some first := hfirst
      rcases Sheet.block?_of_rows h.sheet.document hstart hfinal hle with hnone | ⟨stop, final', hblock, hstop, hlt⟩
      · rw [collapseEach, if_neg hskip, hnone]
        exact ih h ht last hs.2
      · obtain ⟨above, hidden, below, ho, -, -⟩ := Document.split_between h.sheet.document hstart hstop hlt
        have ho' : s.document.order =
            above ++ (resolve holders segment).start.line :: ((hidden ++ [stop]) ++ below) := by rw [ho]; simp
        have hw := (foldBehind_leads h ho).wellFormed h
        have ht' := ht.covering h.sheet.document hw.sheet.document ho' (foldBehind_order h ho)
        obtain ⟨others, hothers⟩ := ih hw ht' (some segment) hs.2
        refine ⟨others + 1, ?_⟩
        rw [collapseEach_fold h ho hskip hblock, hothers]
        rfl

/-- the segments of a layout run in the lines it was built from -/
theorem build_runsIn (h : Reachable s) {kind : Nat} {segment : Segment}
    (hs : segment ∈ (Layout.build (s.foldLines kind)).segments) : segment.RunsIn s.document.order := by
  have hlocates := build_locates h.wellFormed h.proper hs
  have hdoc := h.wellFormed.sheet.document
  exact ⟨segment.start.row, segment.stop.row, Layout.start_row_le hs,
    Document.getElem?_of_row? hdoc hlocates.start.row, Document.getElem?_of_row? hdoc hlocates.stop.row⟩

/-- **Folding all blocks of a kind of delimiter succeeds.** -/
theorem collapseBlocks_ok (h : Reachable s) {kind : Nat} (hk : kind < s.grammar.delimiters.length) :
    ∃ count, (s.collapseBlocks kind).1 = .ok count := by
  have ht : Reachable (s.segments kind).2 := h.step (.segments kind)
  have hsheet : (s.segments kind).2.toSheet = s.rehighlight.2.toSheet := layout_sheet h.wellFormed hk
  have hanswer : s.segments kind =
      (.ok (Layout.build (s.rehighlight.2.foldLines kind)).segments, (s.segments kind).2) :=
    Prod.ext (segments_eq h hk) rfl
  have hlines : s.rehighlight.2.foldLines kind = (s.segments kind).2.foldLines kind := by rw [hsheet]
  rw [hlines] at hanswer
  set t := (s.segments kind).2
  set eligible := (Layout.build (t.foldLines kind)).segments.filter fun segment =>
    !segment.has .collapsed && !segment.isEmpty
  have hruns : ∀ segment ∈ eligible, segment.RunsIn t.document.order := fun segment hs =>
    build_runsIn ht (List.mem_of_mem_filter hs)
  obtain ⟨count, hcount⟩ :=
    collapseEach_ok ht.wellFormed (Tracks.refl ht.wellFormed.sheet.document) none hruns
  have heach : t.collapseEach [] none eligible = (.ok count, (t.collapseEach [] none eligible).2) := Prod.ext hcount rfl
  refine ⟨count, ?_⟩
  unfold collapseBlocks
  rw [hanswer]
  simp only
  rw [heach]

end Session

end Linewise
