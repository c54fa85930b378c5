/-
Lines as trees.

A line with the lines hidden behind it, each with what it hides itself, is a tree; a sheet is a list of trees. Hiding
lines puts their trees below another one; the snapshot of a hidden line is dropped, its children and its tallies stay with
the line. Bringing lines back one level puts the trees where they were, with snapshots made anew from the children: the
same children, and tallies that are added up again. They come out the same, for the tallies of a snapshot are at any time
those of its children together (`Reachable.combined`).

`collapse_expand_inverse`: expanding one level undoes a collapse, and a collapse undoes that.
-/
import Linewise.Proofs.Fold.CollapseSegment
import Linewise.Proofs.Session.Representation

namespace Linewise

/-- a line, and the lines hidden behind it with what they hide themselves -/
structure LineTree where
  text : Text
  hidden : List LineTree

namespace Snapshot

mutual

/-- a hidden line with what it hides itself -/
def tree : Snapshot → LineTree
  | ⟨text, _, _, children, _⟩ => ⟨text, treesOf children⟩

/-- hidden lines with what they hide themselves -/
def treesOf : List Snapshot → List LineTree
  | [] => []
  | child :: children => child.tree :: treesOf children

end

theorem tree_eq (s : Snapshot) : s.tree = ⟨s.text, treesOf s.children⟩ := by
  cases s
  rw [tree]

theorem treesOf_eq_map (children : List Snapshot) : treesOf children = children.map tree := by
  induction children with
  | nil => rw [treesOf, List.map_nil]
  | cons child children ih => rw [treesOf, ih, List.map_cons]

end Snapshot

namespace Row

/-- what a line hides: the hidden lines, and their tallies together -/
def folded (r : Row) : Option (List Snapshot × Tallies) := r.state.snapshot.map fun s => (s.children, s.tallies)

/-- the trees hidden behind a line -/
def hiddenTrees (r : Row) : List LineTree := (r.folded.map fun f => Snapshot.treesOf f.1).getD []

/-- the line as a tree -/
def tree (r : Row) : LineTree := ⟨r.text, r.hiddenTrees⟩

/-- the line with what it hides; reading lines again leaves that alone -/
def content (r : Row) : Text × Option (List Snapshot × Tallies) := (r.text, r.folded)

theorem content_handed (range : RuleId) (r : Row) : (r.handed range).content = r.content := by
  unfold handed
  split_ifs <;> rfl

theorem content_analyzed (g : Grammar) (ignores : IgnoreRule) (incoming : RuleId) (r : Row) :
    (r.analyzed g ignores incoming).content = r.content := by
  simp only [content, folded, analyzed, Option.map_map]
  rfl

/-- a line is kept with the tree it is -/
theorem tree_kept (r : Row) : r.kept.tree = r.tree := by
  rw [Snapshot.tree_eq, tree, hiddenTrees, folded]
  simp only [kept, LineState.toSnapshot]
  cases r.state.snapshot with
  | none => simp [Snapshot.treesOf]
  | some snapshot => rfl

/-- lines that go behind another hang below it -/
theorem tree_covering (r : Row) (rows : List Row) :
    (r.covering rows).tree = ⟨r.text, r.hiddenTrees ++ rows.map tree⟩ := by
  have hkept : Snapshot.treesOf (rows.map kept) = rows.map tree := by
    rw [Snapshot.treesOf_eq_map, List.map_map]
    exact List.map_congr_left fun x _ => x.tree_kept
  have hfolded : (r.covering rows).folded = some ((r.state.snapshot.getD {}).children ++ rows.map kept,
      (r.state.snapshot.getD {}).tallies + Snapshot.combined (rows.map kept)) := rfl
  have hold : Snapshot.treesOf (r.state.snapshot.getD {}).children = r.hiddenTrees := by
    rw [hiddenTrees, folded]
    cases r.state.snapshot with
    | none => simp [Snapshot.treesOf]
    | some snapshot => rfl
  have hnew : (r.covering rows).hiddenTrees = r.hiddenTrees ++ rows.map tree := by
    rw [hiddenTrees, hfolded, Option.map_some, Option.getD_some, Snapshot.treesOf_eq_map, List.map_append,
      ← Snapshot.treesOf_eq_map, ← Snapshot.treesOf_eq_map, hold, hkept]
  rw [tree, hnew]
  rfl

end Row

/-- a sheet as a list of trees -/
def Sheet.trees (s : Sheet) : List LineTree := s.rows.map Row.tree

section Contents

variable {rows rows' : List Row}

theorem map_content_modifyHead {f : Row → Row} (hf : ∀ r, (f r).content = r.content) (rows : List Row) :
    (rows.modifyHead f).map Row.content = rows.map Row.content := by
  cases rows with
  | nil => rfl
  | cons r rows => rw [List.modifyHead_cons, List.map_cons, hf, List.map_cons]

theorem map_content_dirtyFirst (rows : List Row) : (dirtyFirst rows).map Row.content = rows.map Row.content :=
  map_content_modifyHead (f := Row.dirtied) (fun _ => rfl) rows

theorem map_folded_of_content (h : rows.map Row.content = rows'.map Row.content) :
    rows.map Row.folded = rows'.map Row.folded := by
  have hmap := congrArg (List.map Prod.snd) h
  rwa [List.map_map, List.map_map] at hmap

theorem map_tree_of_content (h : rows.map Row.content = rows'.map Row.content) :
    rows.map Row.tree = rows'.map Row.tree := by
  have hmap := congrArg (List.map fun c => LineTree.mk c.1 ((c.2.map fun f => Snapshot.treesOf f.1).getD [])) h
  rwa [List.map_map, List.map_map] at hmap

/-- a move that only reads leaves contents where they are -/
theorem Effect.content {g : Grammar} {ignores : IgnoreRule} {m : Move} (he : Effect g ignores m rows rows')
    (hm : m.isReading = true) : rows'.map Row.content = rows.map Row.content := by
  cases he with
  | quiet | unknown => rfl
  | analyze above r below =>
    simp only [List.map_append, List.map_cons, Row.content_analyzed, handTo,
      map_content_modifyHead (Row.content_handed _)]
  | _ => cases hm

end Contents

/-! ## Lines that come back -/

section Restored

variable {ids : List LineId}

/-- lines brought back one level hide the trees that hung below them -/
theorem map_tree_restored {children : List Snapshot} (hl : ids.length = children.length)
    (hp : ∀ child ∈ children, child.Proper) :
    (Row.restored ids (Snapshot.restoredAll false children)).map Row.tree = Snapshot.treesOf children := by
  rw [Snapshot.restoredAll_shallow, Snapshot.treesOf_eq_map]
  induction children generalizing ids with
  | nil =>
    rw [List.length_eq_zero_iff.1 hl]
    rfl
  | cons child children ih =>
    cases ids with
    | nil => cases hl
    | cons id ids =>
      rw [List.forall_mem_cons] at hp
      have hrest := ih (Nat.succ.inj hl) hp.2
      rw [Row.restored] at hrest ⊢
      rw [List.map_cons, List.zipWith_cons_cons, List.map_cons, hrest, List.map_cons, Snapshot.tree_eq child]
      refine congrArg (· :: _) (congrArg (LineTree.mk child.text) ?_)
      -- a line that is not collapsed hides nothing
      cases hp.1 with
      | intro _ hc _ =>
        by_cases hcollapsed : child.collapsed = true
        · simp [Row.hiddenTrees, Row.folded, hcollapsed, Snapshot.reattached]
        · have hnil : child.children = [] := by
            by_contra hne
            exact hcollapsed (hc.2 hne)
          simp [Row.hiddenTrees, Row.folded, hcollapsed, hnil, Snapshot.treesOf]

/-- lines that come back one level are what they were: their texts, what they hide, and the tallies of that -/
theorem map_restored_kept {rows : List Row} (hl : ids.length = rows.length)
    (hc : ∀ r ∈ rows, ∀ snapshot, r.state.snapshot = some snapshot →
      snapshot.tallies = Snapshot.combined snapshot.children) :
    (Row.restored ids (Snapshot.restoredAll false (rows.map Row.kept))).map Row.content =
      rows.map Row.content := by
  rw [Snapshot.restoredAll_shallow]
  induction rows generalizing ids with
  | nil =>
    rw [List.length_eq_zero_iff.1 hl]
    rfl
  | cons r rows ih =>
    cases ids with
    | nil => cases hl
    | cons id ids =>
      rw [List.forall_mem_cons] at hc
      have hrest := ih (Nat.succ.inj hl) hc.2
      rw [Row.restored] at hrest ⊢
      rw [List.map_cons, List.map_cons, List.zipWith_cons_cons, List.map_cons, hrest, List.map_cons]
      refine congrArg (· :: _) (congrArg (Prod.mk r.text) ?_)
      -- what is added up again is what was there
      obtain hs | ⟨snapshot, hs⟩ := Option.eq_none_or_eq_some r.state.snapshot
      · simp [Row.folded, Row.kept, LineState.toSnapshot, LineState.isCollapsed, hs]
      · simp [Row.folded, Row.kept, LineState.toSnapshot, LineState.isCollapsed, Snapshot.reattached, hs,
          hc.1 snapshot hs]

end Restored

namespace Session

variable {s t : Session}

theorem Leads.content (hl : Leads (·.isReading) s t) (h : s.WellFormed) :
    t.rows.map Row.content = s.rows.map Row.content := by
  induction hl with
  | refl => rfl
  | @tail t m hl hm ha ih => exact ((act_effect (hl.wellFormed h).sheet m ha).1.content hm).trans ih

/-- the tallies of what a line hides are at any time those of the hidden lines together -/
theorem Reachable.combined (h : Reachable s) {r : Row} (hr : r ∈ s.rows) {snapshot : Snapshot}
    (hs : r.state.snapshot = some snapshot) : snapshot.tallies = Snapshot.combined snapshot.children := by
  obtain ⟨notes, hnotes⟩ := h.recorded
  exact (hnotes.kept.frozen r hr snapshot hs).total

theorem rehighlight_content (h : s.WellFormed) : s.rehighlight.2.rows.map Row.content = s.rows.map Row.content :=
  (rehighlight_leads s).content h

/-- the rows of two lines, and those between them -/
theorem rows_between (h : s.toSheet.WellFormed) {start stop : LineId} {first last : Nat}
    (hfirst : s.document.row? start = some first) (hlast : s.document.row? stop = some last) (hlt : first < last) :
    ∃ above hidden below, s.rows = above ++ s.row start :: (hidden ++ s.row stop :: below) ∧ above.length = first ∧
      hidden.length + 1 = last - first := by
  obtain ⟨above, hidden, below, ho, habove, hhidden⟩ := Document.split_between h.document hfirst hlast hlt
  refine ⟨above.map s.row, hidden.map s.row, below.map s.row, ?_, by simpa using habove, by simpa using hhidden⟩
  rw [Sheet.rows, ho]
  simp

/-- bringing back rows below the one that hides them -/
theorem expand_split (h : s.toSheet.WellFormed) {above below : List Row} {r : Row} (hr : s.rows = above ++ r :: below)
    (deep : Bool) {snapshot : Snapshot} (hs : r.state.snapshot = some snapshot) :
    ∃ ids, (s.expand r.id deep).1 = .ok ids ∧ ids.length = (Snapshot.restoredAll deep snapshot.children).length ∧
      (s.expand r.id deep).2.rows =
        above ++ r.opened :: (Row.restored ids (Snapshot.restoredAll deep snapshot.children) ++ dirtyFirst below) := by
  have ho : s.document.order = above.map (·.id) ++ r.id :: below.map (·.id) := by
    rw [← s.toSheet.map_id_rows, hr]
    simp
  have hrow : s.row r.id = r := Sheet.row_id (by rw [hr]; simp)
  obtain ⟨ids, hok, hlen, -, -, -, hrows⟩ := expand_rows h ho deep (hrow.symm ▸ hs)
  refine ⟨ids, hok, hlen, ?_⟩
  rw [hrows, hrow, Sheet.map_row_id fun x hx => by rw [hr]; simp [hx],
    Sheet.map_row_id fun x hx => by rw [hr]; simp [hx]]

/-- what is kept of a line when it is read again -/
theorem content_row (h : s.WellFormed) {id : LineId} (hid : id ∈ s.document.order) :
    (s.rehighlight.2.row id).content = (s.row id).content := by
  have hrows := rehighlight_content h
  rw [Sheet.rows, Sheet.rows, rehighlight_document, List.map_map, List.map_map] at hrows
  exact List.map_inj_left.1 hrows id hid

/-- expanding a line that hid nothing before others went behind it -/
theorem expand_covering (h : s.toSheet.WellFormed) {above hidden below : List Row} {r : Row}
    (hr : s.rows = above ++ r.covering hidden :: below) (hflat : r.state.snapshot = none)
    (hc : ∀ x ∈ hidden, ∀ snapshot, x.state.snapshot = some snapshot →
      snapshot.tallies = Snapshot.combined snapshot.children) :
    ∃ ids, (s.expand r.id false).1 = .ok ids ∧
      (s.expand r.id false).2.document.order = above.map (·.id) ++ r.id :: (ids ++ below.map (·.id)) ∧
      (s.expand r.id false).2.rows.map Row.content =
        (above ++ r :: (hidden ++ below)).map Row.content := by
  obtain ⟨ids, hok, hlen, hrows⟩ := expand_split h hr false rfl
  have hchildren : (Snapshot.extend r.state.snapshot r.text (hidden.map Row.kept)
      ⟨r.state.regions.outgoing, rangeAfter hidden⟩).children = hidden.map Row.kept := by
    rw [hflat]
    rfl
  rw [hchildren] at hlen hrows
  have hcount : ids.length = hidden.length := by
    rw [hlen, Snapshot.restoredAll_shallow, List.length_map, List.length_map]
  have hopened : (r.covering hidden).opened.content = r.content := by
    rw [Row.content, Row.folded, Row.content, Row.folded, hflat]
    rfl
  refine ⟨ids, hok, ?_, ?_⟩
  · rw [← Sheet.map_id_rows, show (s.expand r.id false).2.rows = _ from hrows, List.map_append, List.map_cons,
      List.map_append, map_id_restored hlen, map_id_dirtyFirst]
    rfl
  · rw [show (s.expand r.id false).2.rows = _ from hrows, List.map_append, List.map_cons, List.map_append,
      map_restored_kept hcount hc, hopened, map_content_dirtyFirst, ← List.map_append, ← List.map_cons, ← List.map_append]

/-- **Expanding one level undoes a collapse** behind a line that hid nothing: every line is what it was, but for the ids of
those that come back. -/
theorem expand_of_collapse (h : Reachable s) {start stop : LineId} {first last : Nat}
    (hfirst : s.document.row? start = some first) (hlast : s.document.row? stop = some last) (hlt : first < last)
    (hopen : s.table.isCollapsed start = false) :
    ∃ ids, (s.collapse start stop).1 = .ok (last - first) ∧ ((s.collapse start stop).2.expand start false).1 = .ok ids ∧
      ((s.collapse start stop).2.expand start false).2.document.order =
        s.document.order.take (first + 1) ++ ids ++ s.document.order.drop (last + 1) ∧
      ((s.collapse start stop).2.expand start false).2.rows.map Row.content =
        s.rows.map Row.content := by
  have hread : Reachable s.rehighlight.2 := h.step .rehighlight
  have hw := hread.wellFormed.sheet
  have hstart := List.mem_of_getElem? (Document.getElem?_of_row? h.wellFormed.sheet.document hfirst)
  rw [← rehighlight_document] at hfirst hlast
  obtain ⟨above, hidden, below, hrows, rfl, hlen⟩ := rows_between hw hfirst hlast hlt
  obtain ⟨hcount, hcollapsed⟩ := collapseClean_split hw hrows
  have hflat : (s.rehighlight.2.row start).state.snapshot = none := by
    have hfolded : (s.rehighlight.2.row start).folded = (s.row start).folded :=
      congrArg Prod.snd (content_row h.wellFormed hstart)
    have hnone : (s.row start).state.snapshot = none := by
      rw [LineTable.isCollapsed_eq] at hopen
      exact Option.not_isSome_iff_eq_none.1 (Bool.eq_false_iff.1 hopen)
    rw [Row.folded, Row.folded, hnone, Option.map_none, Option.map_eq_none_iff] at hfolded
    exact hfolded
  have ht : Reachable (s.collapse start stop).2 := h.step (.collapse start stop)
  obtain ⟨ids, hok, horder, hback⟩ := expand_covering ht.wellFormed.sheet hcollapsed hflat fun x hx snapshot hs =>
    hread.combined (r := x) (by rw [hrows]; simp at hx ⊢; tauto) hs
  have hids : s.document.order = above.map (·.id) ++ start :: (hidden.map (·.id) ++ stop :: below.map (·.id)) := by
    rw [← rehighlight_document, ← Sheet.map_id_rows, hrows]
    simp [Sheet.row]
  refine ⟨ids, ?_, hok, ?_, ?_⟩
  · rw [← hlen]
    exact hcount
  · have htake : s.document.order.take (above.length + 1) = above.map (·.id) ++ [start] := by
      rw [hids, List.append_cons]
      exact List.take_left' (by simp)
    have hdrop : s.document.order.drop (last + 1) = below.map (·.id) := by
      have hcut : s.document.order =
          (above.map (·.id) ++ start :: (hidden.map (·.id) ++ [stop])) ++ below.map (·.id) := by rw [hids]; simp
      rw [hcut]
      refine List.drop_left' ?_
      simp only [List.length_append, List.length_cons, List.length_map, List.length_nil]
      omega
    rw [htake, hdrop, show ((s.collapse start stop).2.expand start false).2.document.order = _ from horder,
      map_id_dirtyFirst]
    simp [Sheet.row]
  · calc _ = (above ++ s.rehighlight.2.row start :: (hidden ++ [s.rehighlight.2.row stop] ++ dirtyFirst below)).map
          Row.content := hback
      _ = s.rehighlight.2.rows.map Row.content := by
        rw [hrows]
        simp only [List.map_append, List.map_cons, map_content_dirtyFirst, List.append_assoc, List.cons_append,
          List.nil_append]
      _ = s.rows.map Row.content := rehighlight_content h.wellFormed

/-- a collapsed line is one of the document, and hides something -/
theorem exists_snapshot (h : s.toSheet.WellFormed) {line : LineId} (hc : s.table.isCollapsed line = true) :
    line ∈ s.document.order ∧ ∃ snapshot, (s.row line).state.snapshot = some snapshot := by
  refine ⟨?_, ?_⟩
  · by_contra hout
    have hnone : s.table.get? line = none :=
      LineTable.get?_eq_none_of_not_contains _ _ (Bool.eq_false_iff.2 fun hk => hout ((h.table line).1 hk))
    rw [LineTable.isCollapsed, hnone] at hc
    cases hc
  · rw [LineTable.isCollapsed_eq] at hc
    exact Option.isSome_iff_exists.1 hc

/-- a collapse hangs the trees of the hidden lines below that of the first line; all are read before, which leaves the trees
alone -/
theorem trees_collapse (h : Reachable s) {above hidden below : List LineId} {line last : LineId}
    (ho : s.document.order = above ++ line :: (hidden ++ [last]) ++ below) {first under rest : List LineTree} {tree : LineTree}
    (htrees : s.trees = first ++ tree :: (under ++ rest)) (hfirst : first.length = above.length)
    (hunder : under.length = hidden.length + 1) :
    (s.collapse line last).2.trees = first ++ ⟨tree.text, tree.hidden ++ under⟩ :: rest := by
  have hread : Reachable s.rehighlight.2 := h.step .rehighlight
  rw [← rehighlight_document] at ho
  have hcollapsed := (collapseClean_rows hread.wellFormed.sheet ho).2
  have hsame : s.rehighlight.2.trees = s.trees := map_tree_of_content (rehighlight_content h.wellFormed)
  rw [htrees, Sheet.trees, Sheet.rows, ho, List.append_assoc, List.cons_append, List.map_map, List.map_append,
    List.map_cons, List.map_append] at hsame
  obtain ⟨habove, hrest⟩ := List.append_inj hsame (by simp [hfirst])
  obtain ⟨htree, hrest⟩ := List.cons.inj hrest
  obtain ⟨hhidden, hbelow⟩ := List.append_inj hrest (by simp [hunder])
  have htext : (s.rehighlight.2.row line).text = tree.text := congrArg LineTree.text htree
  have hold : (s.rehighlight.2.row line).hiddenTrees = tree.hidden := congrArg LineTree.hidden htree
  rw [Sheet.trees, show (s.collapse line last).2.rows = _ from hcollapsed, List.map_append, List.map_cons,
    Row.tree_covering, map_tree_of_content (map_content_dirtyFirst _), List.map_map, List.map_map, List.map_map, habove,
    hhidden, hbelow, htext, hold]

/-- **A collapse undoes expanding one level**: the line hides again what it hid. -/
theorem collapse_of_expand (h : Reachable s) {line : LineId} (hc : s.table.isCollapsed line = true) :
    ∃ ids last, (s.expand line false).1 = .ok ids ∧ ids.getLast? = some last ∧
      ((s.expand line false).2.collapse line last).1 = .ok ids.length ∧
      ((s.expand line false).2.collapse line last).2.trees = s.trees := by
  have hw := h.wellFormed.sheet
  obtain ⟨hline, snapshot, hs⟩ := exists_snapshot hw hc
  obtain ⟨above, below, ho⟩ := List.append_of_mem hline
  have hrows := Sheet.rows_of_split ho
  have hproper : snapshot.Attached := h.proper (s.row line) (List.mem_map_of_mem hline) snapshot hs
  obtain ⟨ids, hok, hlen, hback⟩ := expand_split hw hrows false hs
  have hcount : ids.length = snapshot.children.length := by
    rw [hlen, Snapshot.restoredAll_shallow, List.length_map]
  obtain ⟨hidden, last, rfl⟩ : ∃ hidden last, ids = hidden ++ [last] := by
    obtain rfl | ⟨hidden, last, hids⟩ := List.eq_nil_or_concat ids
    · exact absurd (List.length_eq_zero_iff.1 hcount.symm) hproper.children
    · exact ⟨hidden, last, hids.trans List.concat_eq_append⟩
  have ht : Reachable (s.expand line false).2 := h.step (.expand line false)
  have hread : Reachable (s.expand line false).2.rehighlight.2 := ht.step .rehighlight
  have hto : (s.expand line false).2.document.order = above ++ line :: (hidden ++ [last]) ++ below := by
    rw [← Sheet.map_id_rows, show (s.expand line false).2.rows = _ from hback, List.map_append, List.map_cons,
      List.map_append, map_id_restored hlen, map_id_dirtyFirst]
    simp [Sheet.row, Function.comp_def, Row.opened]
  -- the trees of the lines around and of those that came back
  have htrees : (s.expand line false).2.trees = above.map (Row.tree ∘ s.row) ++ ⟨(s.row line).text, []⟩ ::
      (Snapshot.treesOf snapshot.children ++ below.map (Row.tree ∘ s.row)) := by
    rw [Sheet.trees, show (s.expand line false).2.rows = _ from hback, List.map_append, List.map_cons, List.map_append,
      map_tree_restored hcount hproper.proper, map_tree_of_content (map_content_dirtyFirst _), List.map_map, List.map_map]
    rfl
  have hunder : (Snapshot.treesOf snapshot.children).length = hidden.length + 1 := by
    rw [Snapshot.treesOf_eq_map, List.length_map, ← hcount, List.length_append, List.length_singleton]
  refine ⟨_, last, hok, by simp, ?_, ?_⟩
  · have hro := hto
    rw [← rehighlight_document] at hro
    rw [collapse, collapseClean_count hread.wellFormed.sheet hro, List.length_append, List.length_singleton]
  · have htree : (s.row line).tree = ⟨(s.row line).text, Snapshot.treesOf snapshot.children⟩ := by
      rw [Row.tree, Row.hiddenTrees, Row.folded, hs]
      rfl
    rw [trees_collapse ht hto htrees (by simp) hunder, List.nil_append, ← htree, Sheet.trees, hrows, List.map_append,
      List.map_cons, List.map_map, List.map_map]

/-- three lines, the last of them hidden behind the second -/
def tieredSession : Session := (start commentsAndBraces (.ofText ['a', '\n', 'b', '\n', 'c'])).run [.collapse ⟨1⟩ ⟨2⟩]

end Session

end Linewise
