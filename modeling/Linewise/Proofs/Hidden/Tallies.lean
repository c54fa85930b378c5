/-
The tallies of hidden lines are those from when they were hidden.

A collapsed line keeps the tallies of the lines behind it. They are counted when the lines are hidden and not again,
although the range that enters hidden lines may change with the text above them, and what is a comment with it. `Notes`
record along a run which range entered each line when it was hidden; a session does not keep them, it only keeps tallies
that agree with them (`Recorded.kept`).

`totalTallies_current_iff`: the tallies of a line and all it hides are those of a pass from scratch exactly if the noted
ranges count the same as those that enter the lines now; `totalTallies_stale` is a run after which they do not.
-/
import Linewise.Proofs.Balance.Pair
import Linewise.Proofs.Highlighting.Batch

namespace Linewise

namespace Grammar

/-- the tallies of a line, given the range open when it begins -/
def tallyLine (g : Grammar) (range : RuleId) (text : Text) : Tallies :=
  .ofLine g.delimiters text (g.analyze text range).isCommented

/-- the tallies of lines one after the other, given the range open before each -/
def tallyLines (g : Grammar) (ranges : List RuleId) (texts : List Text) : Tallies :=
  (List.zipWith g.tallyLine ranges texts).sum

/-- the ranges open before lines, given the one open before the first -/
def rangesInto (g : Grammar) : RuleId → List Text → List RuleId
  | _, [] => []
  | incoming, text :: texts => incoming :: g.rangesInto (g.analyze text incoming).outgoing texts

end Grammar

/-- the range open before a hidden line when it was hidden, and the traces of the lines behind it -/
structure Trace where
  range : RuleId
  inner : List Trace

namespace Trace

mutual

/-- the ranges of a line and of all it hides, in order -/
def ranges : Trace → List RuleId
  | ⟨range, inner⟩ => range :: rangesOf inner

/-- the ranges of lines and of all they hide, in order -/
def rangesOf : List Trace → List RuleId
  | [] => []
  | trace :: traces => trace.ranges ++ rangesOf traces

end

mutual

/-- a hidden line has the tallies that the trace says -/
def Counts (g : Grammar) : Trace → Snapshot → Prop
  | ⟨range, inner⟩, s =>
    s.tallies = g.tallyLine range s.text + Snapshot.combined s.children ∧ CountsAll g inner s.children

/-- hidden lines have the tallies that the traces say -/
def CountsAll (g : Grammar) : List Trace → List Snapshot → Prop
  | [], [] => True
  | trace :: traces, child :: children => trace.Counts g child ∧ CountsAll g traces children
  | _, _ => False

end

end Trace

/-- what is kept with a collapsed line has the tallies that the traces say -/
structure Snapshot.Frozen (g : Grammar) (traces : List Trace) (s : Snapshot) : Prop where
  total : s.tallies = combined s.children
  lines : Trace.CountsAll g traces s.children

/-- what a line hides has the tallies that the traces say -/
def Row.Frozen (g : Grammar) (traces : List Trace) (r : Row) : Prop :=
  ∀ snapshot, r.state.snapshot = some snapshot → snapshot.Frozen g traces

/-! ## Sums of tallies -/

theorem Snapshot.combined_eq_sum (children : List Snapshot) : combined children = (children.map (·.tallies)).sum := by
  have hfold : ∀ total : Tallies, children.foldl (fun total child => total + child.tallies) total =
      total + (children.map (·.tallies)).sum := by
    induction children with
    | nil =>
      intro total
      exact (add_zero total).symm
    | cons child children ih =>
      intro total
      rw [List.foldl_cons, ih, List.map_cons, List.sum_cons, add_assoc]
  exact (hfold 0).trans (zero_add _)

theorem Snapshot.combined_append (first second : List Snapshot) :
    combined (first ++ second) = combined first + combined second := by
  simp only [combined_eq_sum, List.map_append, List.sum_append]

namespace Grammar

variable (g : Grammar)

theorem tallyLines_append {ranges others : List RuleId} {texts more : List Text} (h : ranges.length = texts.length) :
    g.tallyLines (ranges ++ others) (texts ++ more) = g.tallyLines ranges texts + g.tallyLines others more := by
  rw [tallyLines, List.zipWith_append h, List.sum_append]
  rfl

theorem tallyLines_cons (range : RuleId) (ranges : List RuleId) (text : Text) (texts : List Text) :
    g.tallyLines (range :: ranges) (text :: texts) = g.tallyLine range text + g.tallyLines ranges texts := by
  rw [tallyLines, List.zipWith_cons_cons, List.sum_cons]
  rfl

/-- the tallies of a pass from scratch -/
theorem sum_readLines (ignores : IgnoreRule) (incoming : RuleId) (texts : List Text) :
    ((g.readLines ignores incoming texts).map (·.tallies)).sum = g.tallyLines (g.rangesInto incoming texts) texts := by
  induction texts generalizing incoming with
  | nil => rfl
  | cons text texts ih =>
    rw [rangesInto, tallyLines_cons, ← ih]
    exact List.sum_cons

end Grammar

namespace Trace

variable {g : Grammar}

mutual

theorem tallies_of_counts : ∀ (trace : Trace) (s : Snapshot), trace.Counts g s →
    s.tallies = g.tallyLines trace.ranges (s.text :: s.hiddenTexts) ∧ trace.ranges.length = s.hiddenTexts.length + 1
  | ⟨range, inner⟩, s, h => by
    rw [Counts] at h
    obtain ⟨hsum, hlen⟩ := combined_of_counts inner s.children h.2
    rw [ranges, Snapshot.hiddenTexts_eq]
    refine ⟨?_, by rw [List.length_cons, hlen]⟩
    rw [h.1, hsum, g.tallyLines_cons]

/-- the tallies of hidden lines are those of all texts held, each counted with its range -/
theorem combined_of_counts : ∀ (traces : List Trace) (children : List Snapshot), CountsAll g traces children →
    Snapshot.combined children = g.tallyLines (rangesOf traces) (Snapshot.textsOf children) ∧
      (rangesOf traces).length = (Snapshot.textsOf children).length
  | [], [], _ => by
    rw [rangesOf, Snapshot.textsOf]
    exact ⟨rfl, rfl⟩
  | trace :: traces, child :: children, h => by
    rw [CountsAll] at h
    obtain ⟨hchild, hlen⟩ := tallies_of_counts trace child h.1
    obtain ⟨hrest, hlens⟩ := combined_of_counts traces children h.2
    have hcons : Snapshot.combined (child :: children) = child.tallies + Snapshot.combined children := by
      simp only [Snapshot.combined_eq_sum, List.map_cons, List.sum_cons]
    rw [rangesOf, Snapshot.textsOf, hcons, hchild, hrest]
    refine ⟨?_, ?_⟩
    · exact (g.tallyLines_append (by simpa using hlen)).symm
    · simp only [List.length_append, List.length_cons, hlen, hlens]
  | [], _ :: _, h => by
    rw [CountsAll] at h
    · exact h.elim
    all_goals simp
  | _ :: _, [], h => by
    rw [CountsAll] at h
    · exact h.elim
    all_goals simp

end

theorem CountsAll.append {traces others : List Trace} {children more : List Snapshot} (h : CountsAll g traces children)
    (ho : CountsAll g others more) : CountsAll g (traces ++ others) (children ++ more) := by
  induction traces generalizing children with
  | nil =>
    cases children with
    | nil => exact ho
    | cons child children =>
      rw [CountsAll] at h
      · exact h.elim
      all_goals simp
  | cons trace traces ih =>
    cases children with
    | nil =>
      rw [CountsAll] at h
      · exact h.elim
      all_goals simp
    | cons child children =>
      rw [CountsAll] at h
      simp only [List.cons_append, CountsAll]
      exact ⟨h.1, ih h.2⟩

/-- the traces of what one of the lines hides -/
theorem CountsAll.inner {traces : List Trace} {children : List Snapshot} (h : CountsAll g traces children) {i : Nat}
    {child : Snapshot} (hc : children[i]? = some child) :
    CountsAll g ((traces[i]?.map (·.inner)).getD []) child.children := by
  induction traces generalizing children i with
  | nil =>
    cases children with
    | nil => simp at hc
    | cons first children =>
      rw [CountsAll] at h
      · exact h.elim
      all_goals simp
  | cons trace traces ih =>
    cases children with
    | nil => simp at hc
    | cons first children =>
      rw [CountsAll] at h
      cases i with
      | zero =>
        simp only [List.getElem?_cons_zero, Option.some.injEq] at hc
        subst hc
        obtain ⟨range, inner⟩ := trace
        exact h.1.2
      | succ i => exact ih h.2 (by simpa using hc)

end Trace

/-! ## Rows that moves make -/

/-- the traces of what a line hides, given those noted for it -/
def Row.traces (noted : List Trace) (r : Row) : List Trace := if r.state.isCollapsed then noted else []

namespace Row.Frozen

variable {g : Grammar} {ignores : IgnoreRule} {r : Row} {noted : List Trace}

theorem of_no_snapshot (h : r.state.snapshot = none) : r.Frozen g noted := by
  intro snapshot hs
  rw [h] at hs
  cases hs

theorem of_inherits {rows : List Row} {notes : LineId → List Trace} (h : r.Inherits rows)
    (hf : ∀ x ∈ rows, x.Frozen g (notes x.id)) : r.Frozen g (notes r.id) := by
  intro snapshot hs
  obtain ⟨old, hold, hid, before, hbefore, hchildren, htallies⟩ := h snapshot hs
  have hfrozen := hf old hold before hbefore
  rw [hid] at hfrozen
  exact ⟨by rw [htallies, hchildren, hfrozen.total], by rw [hchildren]; exact hfrozen.lines⟩

theorem traces_lines (h : r.Frozen g noted) :
    Trace.CountsAll g (r.traces noted) ((r.state.snapshot.map (·.children)).getD []) := by
  unfold Row.traces LineState.isCollapsed
  cases hs : r.state.snapshot with
  | none => simp [Trace.CountsAll]
  | some snapshot => simpa using (h snapshot hs).lines

/-- a clean line is hidden with the tallies that the range it received gives -/
theorem kept (h : r.Frozen g noted) (hu : r.UpToDate g ignores) (hc : r.state.dirty = false) :
    Trace.Counts g ⟨r.state.incoming, r.traces noted⟩ r.kept := by
  have htallies : r.state.tallies = g.tallyLine r.state.incoming r.text :=
    congrArg Reading.tallies (hu.reading hc)
  rw [Trace.Counts]
  refine ⟨?_, h.traces_lines⟩
  simp only [Row.kept, LineState.toSnapshot, LineState.totalTallies]
  cases hs : r.state.snapshot with
  | none => exact htallies.trans (add_zero _).symm
  | some snapshot => simp only [htallies, (h snapshot hs).total, Option.map_some, Option.getD_some]

theorem countsAll_kept {rows : List Row} (notes : LineId → List Trace) (hf : ∀ x ∈ rows, x.Frozen g (notes x.id))
    (hu : ∀ x ∈ rows, x.UpToDate g ignores) (hc : ∀ x ∈ rows, x.state.dirty = false) :
    Trace.CountsAll g (rows.map fun x => ⟨x.state.incoming, x.traces (notes x.id)⟩) (rows.map Row.kept) := by
  induction rows with
  | nil => simp [Trace.CountsAll]
  | cons x rows ih =>
    rw [List.forall_mem_cons] at hf hu hc
    rw [List.map_cons, List.map_cons, Trace.CountsAll]
    exact ⟨hf.1.kept hu.1 hc.1, ih hf.2 hu.2 hc.2⟩

/-- a line that clean ones go behind takes over their tallies -/
theorem covering {rows : List Row} {others : List Trace} (h : r.Frozen g noted)
    (ho : Trace.CountsAll g others (rows.map Row.kept)) : (r.covering rows).Frozen g (r.traces noted ++ others) := by
  intro snapshot hs
  cases hs
  have hlines := h.traces_lines.append ho
  cases hold : r.state.snapshot with
  | none =>
    rw [hold] at hlines
    refine ⟨?_, hlines⟩
    simp only [Snapshot.extend]
    exact zero_add _
  | some old =>
    rw [hold] at hlines
    refine ⟨?_, hlines⟩
    simp only [Snapshot.extend, Option.getD_some, Snapshot.combined_append, (h old hold).total]

end Row.Frozen

/-! ## Notes along a run -/

/-- the traces of what lines hide -/
abbrev Notes := LineId → List Trace

namespace Session

/-- the lines below a line up to another -/
def linesBetween (s : Session) (start stop : LineId) : List LineId :=
  match s.document.row? start, s.document.row? stop with
  | some first, some last => (s.document.order.drop (first + 1)).take (last - first)
  | _, _ => []

/-- the trace of a line that is hidden now: the range it received, and what is noted of the lines behind it -/
def traceOf (s : Session) (notes : Notes) (id : LineId) : Trace :=
  ⟨(s.row id).state.incoming, (s.row id).traces (notes id)⟩

/-- the notes after a move: a line that others go behind takes over their traces, one that comes back keeps its own -/
def noted (s : Session) (notes : Notes) : Move → Notes
  | .hide start stop => fun id =>
    if id = start then (s.row start).traces (notes start) ++ (s.linesBetween start stop).map (s.traceOf notes)
    else notes id
  | .expand line deep =>
    match (s.expand line deep).1 with
    | .error _ => notes
    | .ok ids => fun id =>
      match ids.idxOf? id with
      | none => notes id
      | some i => ((notes line)[i]?.map (·.inner)).getD []
  | _ => notes

/-- sessions that come about by moves, with the notes taken on the way -/
inductive Recorded : Session → Notes → Prop where
  | start (grammar : Grammar) {document : Document} (h : document.Built) : Recorded (start grammar document) fun _ => []
  | act {s : Session} {notes : Notes} (m : Move) (h : Recorded s notes) (ha : s.Allows m) :
    Recorded (s.act m) (s.noted notes m)

/-- every session that can be reached has notes -/
theorem Reachable.recorded {s : Session} (h : Reachable s) : ∃ notes, Recorded s notes := by
  obtain ⟨grammar, document, hd, hl⟩ := h.leads
  clear h
  induction hl with
  | refl => exact ⟨_, .start grammar hd⟩
  | tail m _ _ ha ih =>
    obtain ⟨notes, hnotes⟩ := ih
    exact ⟨_, hnotes.act m ha⟩

section Frozen

variable {s : Session} {notes : Notes}

theorem mem_dirtyFirst {rows : List Row} {r : Row} (h : r ∈ dirtyFirst rows) : ∃ x ∈ rows, r = x ∨ r = x.dirtied := by
  cases rows with
  | nil => exact absurd h List.not_mem_nil
  | cons first rows =>
    rcases List.mem_cons.1 h with rfl | h
    · exact ⟨first, List.mem_cons_self, Or.inr rfl⟩
    · exact ⟨r, List.mem_cons_of_mem _ h, Or.inl rfl⟩

/-- rows that a fold leaves alone, but for the first of those below -/
theorem frozen_untouched (hf : ∀ r ∈ s.rows, r.Frozen s.grammar (notes r.id)) {ids : List LineId}
    (hids : ∀ id ∈ ids, id ∈ s.document.order) {notes' : Notes} (hn : ∀ id ∈ ids, notes' id = notes id) :
    ∀ r, r ∈ ids.map s.row ∨ r ∈ dirtyFirst (ids.map s.row) → r.Frozen s.grammar (notes' r.id) := by
  have hrow : ∀ id ∈ ids, (s.row id).Frozen s.grammar (notes' id) := by
    intro id hid
    rw [hn id hid]
    exact hf (s.row id) (List.mem_map_of_mem (hids id hid))
  rintro r (hr | hr)
  · obtain ⟨id, hid, rfl⟩ := List.mem_map.1 hr
    exact hrow id hid
  · obtain ⟨x, hx, hrx⟩ := mem_dirtyFirst hr
    obtain ⟨id, hid, rfl⟩ := List.mem_map.1 hx
    rcases hrx with rfl | rfl
    · exact hrow id hid
    · exact hrow id hid

theorem linesBetween_of_split (h : s.document.WellFormed) {above hidden below : List LineId} {start stop : LineId}
    (ho : s.document.order = above ++ start :: (hidden ++ [stop]) ++ below) :
    s.linesBetween start stop = hidden ++ [stop] := by
  have ho1 : s.document.order = above ++ start :: (hidden ++ [stop] ++ below) := by rw [ho]; simp
  have ho2 : s.document.order = (above ++ start :: hidden) ++ stop :: below := by rw [ho]; simp
  have hdrop : s.document.order.drop (above.length + 1) = (hidden ++ [stop]) ++ below := by
    rw [ho, List.append_assoc, List.drop_append]
    simp
  have hlen : (above ++ start :: hidden).length - above.length = (hidden ++ [stop]).length := by
    simp
  simp only [linesBetween, Document.row?_of_split h ho1, Document.row?_of_split h ho2, hdrop, hlen, List.take_left]

/-- lines hidden while they are clean have the tallies that their traces say -/
theorem countsAll_hidden (hh : Highlighted s.grammar s.ignores s.rows)
    (hf : ∀ r ∈ s.rows, r.Frozen s.grammar (notes r.id)) {ids : List LineId} (hids : ∀ id ∈ ids, id ∈ s.document.order)
    (hclean : ∀ id ∈ ids, s.table.isDirty id = false) :
    Trace.CountsAll s.grammar (ids.map (s.traceOf notes)) ((ids.map s.row).map Row.kept) := by
  have hin : ∀ x ∈ ids.map s.row, x ∈ s.rows ∧ x.state.dirty = false := by
    intro x hx
    obtain ⟨id, hid, rfl⟩ := List.mem_map.1 hx
    have hd := hclean id hid
    rw [LineTable.isDirty_eq] at hd
    exact ⟨List.mem_map_of_mem (hids id hid), hd⟩
  have hkept := Row.Frozen.countsAll_kept notes (fun x hx => hf x (hin x hx).1) (fun x hx => hh.lines x (hin x hx).1)
    fun x hx => (hin x hx).2
  rwa [List.map_map] at hkept

theorem frozen_hide_split (hw : s.toSheet.WellFormed) (hh : Highlighted s.grammar s.ignores s.rows)
    (hf : ∀ r ∈ s.rows, r.Frozen s.grammar (notes r.id)) {above hidden below : List LineId} {start stop : LineId}
    (ho : s.document.order = above ++ start :: (hidden ++ [stop]) ++ below)
    (hclean : ∀ id ∈ hidden ++ [stop], s.table.isDirty id = false) :
    ∀ r ∈ (s.act (.hide start stop)).rows, r.Frozen s.grammar (s.noted notes (.hide start stop) r.id) := by
  have ho' : s.document.order = above ++ start :: (hidden ++ [stop] ++ below) := by rw [ho]; simp
  have hmem : ∀ id ∈ above ++ start :: (hidden ++ [stop] ++ below), id ∈ s.document.order := fun id hid => ho' ▸ hid
  have hnoted : ∀ id ∈ above ++ below, s.noted notes (.hide start stop) id = notes id := by
    intro id hid
    have hne : id ≠ start := by
      rintro rfl
      rcases List.mem_append.1 hid with hid | hid
      · exact Document.not_mem_above hw.document ho' hid
      · exact Document.not_mem_below hw.document ho' (List.mem_append_right _ hid)
    simp only [noted, if_neg hne]
  rw [act, (collapseClean_rows hw ho).2]
  intro r hr
  rcases List.mem_append.1 hr with hr | hr
  · exact frozen_untouched hf (fun id hid => hmem id (List.mem_append_left _ hid))
      (fun id hid => hnoted id (List.mem_append_left _ hid)) r (Or.inl hr)
  rcases List.mem_cons.1 hr with rfl | hr
  · have hcounts := countsAll_hidden hh hf (fun id hid => hmem id (by simp at hid ⊢; tauto)) hclean
    have hid : ((s.row start).covering ((hidden ++ [stop]).map s.row)).id = start := rfl
    rw [hid]
    simp only [noted, if_pos, linesBetween_of_split hw.document ho]
    exact (hf (s.row start) (List.mem_map_of_mem (hmem start (by simp)))).covering hcounts
  · exact frozen_untouched hf (fun id hid => hmem id (by simp [hid]))
      (fun id hid => hnoted id (List.mem_append_right _ hid)) r (Or.inr hr)

theorem frozen_hide_refused (hf : ∀ r ∈ s.rows, r.Frozen s.grammar (notes r.id)) {start stop : LineId}
    (hempty : s.linesBetween start stop = []) :
    ∀ r ∈ s.rows, r.Frozen s.grammar (s.noted notes (.hide start stop) r.id) := by
  intro r hr snapshot hsnapshot
  have hfrozen := hf r hr snapshot hsnapshot
  simp only [noted, hempty, List.map_nil, List.append_nil]
  split_ifs with hid
  · have hrow : s.row start = r := by rw [← hid]; exact Sheet.row_id hr
    have hcollapsed : r.state.isCollapsed = true := by simp [LineState.isCollapsed, hsnapshot]
    rw [hrow, Row.traces, if_pos hcollapsed, ← hid]
    exact hfrozen
  · exact hfrozen

/-- what lines hide keeps the tallies noted when more lines are hidden -/
theorem frozen_hide (hw : s.toSheet.WellFormed) (hh : Highlighted s.grammar s.ignores s.rows)
    (hf : ∀ r ∈ s.rows, r.Frozen s.grammar (notes r.id)) {start stop : LineId} (ha : s.Allows (.hide start stop)) :
    ∀ r ∈ (s.act (.hide start stop)).rows, r.Frozen s.grammar (s.noted notes (.hide start stop) r.id) := by
  by_cases hok : ∃ first last, s.document.row? start = some first ∧ s.document.row? stop = some last ∧ first < last
  · obtain ⟨first, last, hrow, hrow', hlt⟩ := hok
    obtain ⟨above, hidden, below, ho, rfl, hlen⟩ := Document.split_between hw.document hrow hrow' hlt
    refine frozen_hide_split hw hh hf ho fun id hid => ha _ last hrow hrow' id ?_
    rw [ho, List.append_assoc, List.drop_left, List.take_append_of_le_length (by simp; omega),
      List.take_of_length_le (by simp; omega)]
    exact List.mem_cons_of_mem _ hid
  · have hs : s.act (.hide start stop) = s :=
      collapseClean_refused fun first last hrow hrow' hlt => hok ⟨first, last, hrow, hrow', hlt⟩
    rw [hs]
    apply frozen_hide_refused hf
    unfold linesBetween
    split
    · rename_i first last hrow hrow'
      have hle : last ≤ first := Nat.le_of_not_lt fun hlt => hok ⟨first, last, hrow, hrow', hlt⟩
      rw [Nat.sub_eq_zero_of_le hle, List.take_zero]
    · rfl

/-- lines that come back collapsed keep the tallies noted for the lines behind them -/
theorem frozen_restored {g : Grammar} {traces : List Trace} {snapshot : Snapshot} (hf : snapshot.Frozen g traces)
    {deep : Bool} {ids : List LineId} (hn : ids.Nodup) {r : Row}
    (hr : r ∈ Row.restored ids (Snapshot.restoredAll deep snapshot.children)) :
    ∃ i, ids.idxOf? r.id = some i ∧ r.Frozen g ((traces[i]?.map (·.inner)).getD []) := by
  obtain ⟨i, hi⟩ := List.mem_iff_getElem?.1 hr
  rw [Row.restored, List.getElem?_zipWith_eq_some] at hi
  obtain ⟨id, line, hid, hline, rfl⟩ := hi
  refine ⟨i, idxOf?_of_getElem? hn hid, ?_⟩
  cases deep with
  | true => exact .of_no_snapshot (Snapshot.flat_restoredAll snapshot.children (List.mem_of_getElem? hline))
  | false =>
    rw [Snapshot.restoredAll_shallow, List.getElem?_map] at hline
    obtain ⟨child, hchild, rfl⟩ := Option.map_eq_some_iff.1 hline
    intro inner hinner
    simp only at hinner
    split_ifs at hinner
    cases hinner
    have hlines := hf.lines.inner hchild
    exact ⟨rfl, hlines⟩

/-- what lines hide keeps the tallies noted when lines come back -/
theorem frozen_expand (hw : s.toSheet.WellFormed) (hf : ∀ r ∈ s.rows, r.Frozen s.grammar (notes r.id)) (line : LineId)
    (deep : Bool) :
    ∀ r ∈ (s.act (.expand line deep)).rows, r.Frozen s.grammar (s.noted notes (.expand line deep) r.id) := by
  by_cases hhides : line ∈ s.document.order ∧ (s.row line).state.snapshot ≠ none
  · obtain ⟨hl, hs⟩ := hhides
    obtain ⟨snapshot, hs⟩ := Option.ne_none_iff_exists'.1 hs
    obtain ⟨above, below, ho⟩ := List.append_of_mem hl
    obtain ⟨ids, hok, _, hfresh, hn, _, hrows⟩ := expand_rows hw ho deep hs
    have hmem : ∀ id ∈ above ++ line :: below, id ∈ s.document.order := fun id hid => ho ▸ hid
    have hnoted : ∀ id ∈ s.document.order, s.noted notes (.expand line deep) id = notes id := by
      intro id hid
      simp only [noted, hok, List.idxOf?_eq_none_iff.2 (hfresh id hid)]
    rw [act, hrows]
    intro r hr
    rcases List.mem_append.1 hr with hr | hr
    · have hin : ∀ id ∈ above, id ∈ s.document.order := fun id hid => hmem id (by simp [hid])
      exact frozen_untouched hf hin (fun id hid => hnoted id (hin id hid)) r (Or.inl hr)
    rcases List.mem_cons.1 hr with rfl | hr
    · exact .of_no_snapshot rfl
    rcases List.mem_append.1 hr with hr | hr
    · have hline : snapshot.Frozen s.grammar (notes line) := hf (s.row line) (List.mem_map_of_mem hl) snapshot hs
      obtain ⟨i, hi, hfrozen⟩ := frozen_restored hline hn hr
      simpa only [noted, hok, hi] using hfrozen
    · have hin : ∀ id ∈ below, id ∈ s.document.order := fun id hid => hmem id (by simp [hid])
      exact frozen_untouched hf hin (fun id hid => hnoted id (hin id hid)) r (Or.inr hr)
  · have hrefused : line ∉ s.document.order ∨ (s.row line).state.snapshot = none := by tauto
    obtain ⟨error, herror⟩ := expand_refused hw deep hrefused
    have hnoted : s.noted notes (.expand line deep) = notes := by simp only [noted, herror]
    rw [hnoted]
    by_cases hl : line ∈ s.document.order
    · obtain ⟨above, below, ho⟩ := List.append_of_mem hl
      rw [act, (expand_flat_rows hw ho deep (hrefused.resolve_left fun hout => hout hl)).2]
      have hrows := Sheet.rows_of_split (s := s.toSheet) ho
      rw [hrows, List.forall_mem_append, List.forall_mem_cons] at hf
      rw [List.forall_mem_append, List.forall_mem_cons]
      exact hf
    · rw [act_unknown hw rfl hl]
      exact hf

end Frozen

/-- what holds of a session with notes -/
structure Kept (s : Session) (notes : Notes) : Prop where
  wellFormed : s.WellFormed
  highlighted : Highlighted s.grammar s.ignores s.rows
  frozen : ∀ r ∈ s.rows, r.Frozen s.grammar (notes r.id)

theorem start_kept (grammar : Grammar) {document : Document} (h : document.WellFormed) (notes : Notes) :
    (start grammar document).Kept notes := by
  refine ⟨start_wellFormed grammar h, start_highlighted grammar document, ?_⟩
  intro r hr
  rw [start_rows] at hr
  obtain ⟨id, _, rfl⟩ := List.mem_map.1 hr
  exact .of_no_snapshot rfl

theorem Kept.act {s : Session} {notes : Notes} (h : s.Kept notes) (m : Move) (ha : s.Allows m) :
    (s.act m).Kept (s.noted notes m) := by
  have he := act_effect h.wellFormed.sheet m ha
  refine ⟨act_wellFormed h.wellFormed ha, act_highlighted h.wellFormed h.highlighted ha, ?_⟩
  rw [act_grammar]
  by_cases hm : m.folds = false
  · have hnoted : s.noted notes m = notes := by
      cases m <;> first | rfl | cases hm
    rw [hnoted]
    exact fun r hr => .of_inherits (he.1.inherits hm r hr) h.frozen
  · cases m with
    | hide start stop => exact frozen_hide h.wellFormed.sheet h.highlighted h.frozen ha
    | expand line deep => exact frozen_expand h.wellFormed.sheet h.frozen line deep
    | _ => exact absurd rfl hm

/-- **The tallies kept with collapsed lines are those that the notes say, along every run.** -/
theorem Recorded.kept {s : Session} {notes : Notes} (h : Recorded s notes) : s.Kept notes := by
  induction h with
  | start grammar hd => exact start_kept grammar hd.wellFormed _
  | act m _ ha ih => exact ih.act m ha

/-! ## Tallies now and then -/

/-- the tallies that a pass from scratch gives a row and all it hides, with the rows above it -/
def scratchTallies (s : Session) (above : List Row) (r : Row) : Tallies :=
  (((s.grammar.readLines s.ignores .none s.expanded).drop (textsOfRows above).length).take r.texts.length).map
    (·.tallies) |>.sum

variable {s : Session} {notes : Notes} {above below : List Row} {r : Row}

/-- the tallies of a row and all it hides are its own and those noted -/
theorem Kept.totalTallies (h : s.Kept notes) (hr : r ∈ s.rows) :
    r.state.totalTallies = r.state.tallies + s.grammar.tallyLines (Trace.rangesOf (notes r.id)) r.hidden := by
  unfold LineState.totalTallies Row.hidden
  cases hs : r.state.snapshot with
  | none =>
    have hnone : s.grammar.tallyLines (Trace.rangesOf (notes r.id)) [] = 0 := by
      rw [Grammar.tallyLines, List.zipWith_nil_right]
      rfl
    exact (add_zero r.state.tallies).symm.trans (by rw [← hnone]; rfl)
  | some snapshot =>
    have hfrozen := h.frozen r hr snapshot hs
    have hsum := (Trace.combined_of_counts _ _ hfrozen.lines).1
    rw [← Snapshot.hiddenTexts_eq] at hsum
    simp only [hfrozen.total, hsum, Option.map_some, Option.getD_some]

/-- the tallies of a pass from scratch are those of the row and those of the ranges that enter the hidden lines now -/
theorem scratchTallies_eq (hh : Highlighted s.grammar s.ignores s.rows) (hc : ∀ x ∈ s.rows, x.state.dirty = false)
    (hr : s.rows = above ++ r :: below) :
    s.scratchTallies above r = r.state.tallies +
      s.grammar.tallyLines (s.grammar.rangesInto r.state.regions.outgoing r.hidden) r.hidden := by
  rw [hr] at hh hc
  obtain ⟨hu, ht⟩ := hh
  rw [List.forall_mem_append, List.forall_mem_cons] at hu hc
  rw [threaded_append] at ht
  have hincoming : r.state.incoming = s.grammar.handOn .none (textsOfRows above) :=
    ht.2.1 hc.2.1 _ (Highlighted.known hu.1 ht.1 hc.1)
  have hreading := hu.2.1.reading hc.2.1
  have htallies : r.state.tallies = s.grammar.tallyLine r.state.incoming r.text := congrArg Reading.tallies hreading
  have hregions : r.state.regions = s.grammar.analyze r.text r.state.incoming := congrArg Reading.regions hreading
  have hlen := s.grammar.length_readLines s.ignores
  have hslice : ((s.grammar.readLines s.ignores .none s.expanded).drop (textsOfRows above).length).take r.texts.length =
      s.grammar.readLines s.ignores r.state.incoming r.texts := by
    rw [Sheet.expanded, hr, textsOfRows_append, textsOfRows_cons, Grammar.readLines_append, ← hincoming,
      List.drop_left' (hlen _ _), Grammar.readLines_append, List.take_left' (hlen _ _)]
  calc s.scratchTallies above r
      _ = ((s.grammar.readLines s.ignores r.state.incoming r.texts).map (·.tallies)).sum := by
        rw [scratchTallies, hslice]
      _ = s.grammar.tallyLines (s.grammar.rangesInto r.state.incoming r.texts) r.texts :=
        s.grammar.sum_readLines s.ignores _ _
      _ = r.state.tallies + s.grammar.tallyLines (s.grammar.rangesInto r.state.regions.outgoing r.hidden) r.hidden := by
        rw [Row.texts, Grammar.rangesInto, Grammar.tallyLines_cons, ← htallies, ← hregions]

/-- **When the tallies of hidden lines are current.** Once the highlighting is up to date, a line's tallies and those of
all it hides are those of a pass from scratch, kind by kind, exactly if counting the hidden lines from the ranges noted
when they were hidden comes to the same as counting them from the ranges that enter them now; in particular if those are
the same. -/
theorem totalTallies_current_iff (h : Reachable s) :
    (∃ notes, Recorded s.rehighlight.2 notes) ∧ ∀ notes, Recorded s.rehighlight.2 notes →
      ∀ above r below, s.rehighlight.2.rows = above ++ r :: below →
        (Trace.rangesOf (notes r.id) = s.grammar.rangesInto r.state.regions.outgoing r.hidden →
          r.state.totalTallies = s.rehighlight.2.scratchTallies above r) ∧
        ∀ kind, r.state.totalTallies.get kind = (s.rehighlight.2.scratchTallies above r).get kind ↔
          r.state.tallies.get kind + (s.grammar.tallyLines (Trace.rangesOf (notes r.id)) r.hidden).get kind =
            r.state.tallies.get kind + (s.grammar.tallyLines
              (s.grammar.rangesInto r.state.regions.outgoing r.hidden) r.hidden).get kind := by
  have hreachable : Reachable s.rehighlight.2 := h.step .rehighlight
  refine ⟨hreachable.recorded, ?_⟩
  intro notes hnotes above r below hr
  have hclean : ∀ x ∈ s.rehighlight.2.rows, x.state.dirty = false := rehighlight_rows_clean h.wellFormed
  have hnow := scratchTallies_eq hreachable.highlighted hclean hr
  have hthen := hnotes.kept.totalTallies (r := r) (by rw [hr]; simp)
  rw [(rehighlight_leads s).grammar] at hnow hthen
  refine ⟨?_, ?_⟩
  · intro hsame
    rw [hthen, hnow, hsame]
  · intro kind
    rw [hthen, hnow, Tallies.get_add, Tallies.get_add]

/-- a brace hidden behind a line in which a comment is opened afterwards -/
def staleSession : Session :=
  (start commentsAndBraces (.ofText ['x', '\n', '{'])).run [.collapse ⟨0⟩ ⟨1⟩, .setText ⟨0⟩ ['<']]

theorem staleSession_reachable : Reachable staleSession :=
  ((Reachable.start _ (.ofText _)).step (.collapse ⟨0⟩ ⟨1⟩)).step (.setText ⟨0⟩ ['<'])

theorem staleSession_rows :
    staleSession.rehighlight.2.rows = [] ++ staleSession.rehighlight.2.row ⟨0⟩ :: [] := by
  have ho : staleSession.rehighlight.2.document.order = [⟨0⟩] := by decide +kernel
  rw [Sheet.rows, ho]
  rfl

theorem staleSession_tallies :
    (staleSession.rehighlight.2.row ⟨0⟩).state.totalTallies.get 0 = ⟨⟨1, 0⟩, ⟨0, 0⟩⟩ ∧
      (staleSession.rehighlight.2.scratchTallies [] (staleSession.rehighlight.2.row ⟨0⟩)).get 0 = ⟨⟨0, 0⟩, ⟨1, 0⟩⟩ := by
  decide +kernel

/-- the range that enters the brace is not the one noted when it was hidden -/
theorem totalTallies_current_iff_stale :
    Reachable staleSession ∧ ∀ notes, Recorded staleSession.rehighlight.2 notes →
      Trace.rangesOf (notes ⟨0⟩) ≠ staleSession.grammar.rangesInto
        (staleSession.rehighlight.2.row ⟨0⟩).state.regions.outgoing (staleSession.rehighlight.2.row ⟨0⟩).hidden := by
  refine ⟨staleSession_reachable, ?_⟩
  intro notes hnotes hsame
  have hcurrent := ((totalTallies_current_iff staleSession_reachable).2 notes hnotes _ _ _ staleSession_rows).1 hsame
  have hstale := staleSession_tallies
  rw [hcurrent] at hstale
  exact absurd (hstale.1.symm.trans hstale.2) (by decide)

/-- the brace is in a comment now, but counted as if it were not -/
theorem totalTallies_stale :
    Reachable staleSession ∧
      staleSession.rehighlight.2.rows = [] ++ staleSession.rehighlight.2.row ⟨0⟩ :: [] ∧
      (staleSession.rehighlight.2.row ⟨0⟩).state.totalTallies.get 0 ≠
        (staleSession.rehighlight.2.scratchTallies [] (staleSession.rehighlight.2.row ⟨0⟩)).get 0 := by
  refine ⟨staleSession_reachable, staleSession_rows, ?_⟩
  rw [staleSession_tallies.1, staleSession_tallies.2]
  decide

end Session

end Linewise
