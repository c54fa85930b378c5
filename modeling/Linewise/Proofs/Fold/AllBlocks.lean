/-
What folding all blocks of a kind hides.

While blocks are folded the lines of the beginning lie in heaps: a visible line and what it hides. `Gathering` says that
these are the rows gathered as far as their lines reach by the segments done so far, and that each line of the beginning is
held by the visible line of its heap. So the ends of the next segment are found in the heaps, and what lies between them is
what its line newly reaches (`Gathering.next`): the last line of the segment, or the one above it, is in the last heap to
hide, for a line that opens the next block is still visible when a block that ends on it is folded
(`Passed.unreached_last`). Folding the segment is then one more step of gathering (`Gathering.fold`), and the whole pass
gathers the rows as far as their lines reach (`Gathering.run`).

Main statement: `collapseBlocks_nests`.
-/
import Linewise.Proofs.Fold.Gather
import Linewise.Proofs.Fold.Reach
import Linewise.Proofs.Hidden.Trees
import Linewise.Proofs.Session.Settled

namespace Linewise

/-- the tree with further trees hung below it -/
def LineTree.over (t : LineTree) (others : List LineTree) : LineTree := ⟨t.text, t.hidden ++ others⟩

/-! ## Rows behind a row -/

namespace Row

variable {r : Row} {rows more : List Row}

/-- the row with the others behind it, as it is once it is read again -/
def holding (r : Row) (rows : List Row) : Row := if rows = [] then r else (r.covering rows).cleaned

@[simp] theorem holding_nil (r : Row) : r.holding [] = r := if_pos rfl

theorem holding_of_ne_nil (h : rows ≠ []) : r.holding rows = (r.covering rows).cleaned := if_neg h

@[simp] theorem id_holding (r : Row) (rows : List Row) : (r.holding rows).id = r.id := by
  unfold holding
  split_ifs <;> rfl

/-- hiding rows in two goes -/
theorem holding_holding (r : Row) (rows more : List Row) : (r.holding rows).holding more = r.holding (rows ++ more) := by
  by_cases hrows : rows = []
  · rw [hrows, holding_nil, List.nil_append]
  by_cases hmore : more = []
  · rw [hmore, holding_nil, List.append_nil]
  have hlast : rangeAfter (rows ++ more) = rangeAfter more := by
    rw [rangeAfter, rangeAfter, List.getLast?_append_of_ne_nil _ hmore]
  rw [holding_of_ne_nil hrows, holding_of_ne_nil hmore, holding_of_ne_nil (by simp [hrows])]
  simp only [covering, cleaned, Snapshot.extend, Option.getD_some, List.map_append, Snapshot.combined_append, hlast,
    List.append_assoc, add_assoc]

theorem cleaned_covering (r : Row) (h : rows ≠ []) :
    (r.covering rows).cleaned = r.cleaned.holding (rows.map cleaned) := by
  have hkept : (rows.map cleaned).map kept = rows.map kept := by
    rw [List.map_map]
    rfl
  have hlast : rangeAfter (rows.map cleaned) = rangeAfter rows := by
    rw [rangeAfter, rangeAfter, List.getLast?_map, Option.map_map]
    rfl
  rw [holding_of_ne_nil (by simpa using h)]
  simp only [covering, cleaned, hlast]
  rw [← hkept]

theorem tree_holding (r : Row) (rows : List Row) : (r.holding rows).tree = r.tree.over (rows.map tree) := by
  by_cases h : rows = []
  · rw [h, holding_nil, List.map_nil, LineTree.over, List.append_nil]
    rfl
  · rw [holding_of_ne_nil h, LineTree.over, tree]
    exact tree_covering r rows

end Row

/-! ## The ends of a block -/

namespace Sheet

variable {d : Document} {segment : Segment} {above hidden below : List LineId} {start : LineId}

/-- a segment with its last line hides the lines down to that -/
theorem block?_plain (h : d.WellFormed) (ho : d.order = above ++ start :: (hidden ++ below))
    (hb : segment.has .beginOnly = false) (hstart : segment.start.line = start)
    (hstop : segment.stop.line = hidden.getLast?.getD start) :
    block? d segment = .ok (hidden.getLast?.map (start, ·)) := by
  have hfirst := Document.row?_of_split h ho
  rw [← hstart] at hfirst
  rcases List.eq_nil_or_concat hidden with rfl | ⟨front, last, rfl⟩
  · have hlast : d.row? segment.stop.line = some above.length := by rwa [hstop, List.getLast?_nil, ← hstart]
    simp [block?, hfirst, hlast]
  · rw [List.concat_eq_append] at *
    rw [List.getLast?_concat] at hstop ⊢
    have ho' : d.order = (above ++ start :: front) ++ last :: below := by rw [ho]; simp
    have hlast : d.row? segment.stop.line = some (above ++ start :: front).length := by
      rw [hstop]
      exact Document.row?_of_split h ho'
    have hlt : above.length < (above ++ start :: front).length := by simp
    simp only [block?, hfirst, hlast, if_neg (Nat.not_lt.2 hlt.le), hb, Bool.false_and, Bool.false_eq_true, if_false,
      if_pos hlt]
    rw [hstart, hstop]
    rfl

/-- a segment without its last line hides the lines above that -/
theorem block?_beginOnly (h : d.WellFormed) (ho : d.order = above ++ start :: (hidden ++ segment.stop.line :: below))
    (hb : segment.has .beginOnly = true) (hstart : segment.start.line = start) :
    block? d segment = .ok (hidden.getLast?.map (start, ·)) := by
  have hfirst := Document.row?_of_split h ho
  rw [← hstart] at hfirst
  have ho' : d.order = (above ++ start :: hidden) ++ segment.stop.line :: below := by rw [ho]; simp
  have hlast := Document.row?_of_split h ho'
  have hlen : (above ++ start :: hidden).length = above.length + 1 + hidden.length := by simp; omega
  rw [hlen] at hlast
  have hlt : above.length < above.length + 1 + hidden.length := by omega
  have hprev : above.length + 1 + hidden.length - 1 = above.length + hidden.length := by omega
  simp only [block?, hfirst, hlast, if_neg (Nat.not_lt.2 hlt.le), hb, Bool.true_and, decide_eq_true hlt, if_true, hprev]
  rcases List.eq_nil_or_concat hidden with rfl | ⟨front, last, rfl⟩
  · have hline : d.lineAt? above.length = some start := by
      rw [Document.lineAt?, ho]
      simp
    simp [hline]
  · rw [List.concat_eq_append] at *
    have hline : d.lineAt? (above.length + (front ++ [last]).length) = some last := by
      rw [Document.lineAt?, ho, List.getElem?_append_right (by omega)]
      simp
    have hmore : above.length < above.length + (front ++ [last]).length := by simp
    rw [hline, List.getLast?_concat]
    simp only [if_pos hmore, hstart]
    rfl

end Sheet

namespace Session

variable {s : Session} {holders : Holders} {rows : List Row} {ends ends' : Nat → Nat}

/-! ## One block -/

/-- folding a block puts its rows behind the first of them, and leaves rows settled -/
theorem foldBehind_rows (h : s.WellFormed) (hs : s.Settled) {above hidden below : List Row} {r last : Row}
    (hr : s.rows.map Row.cleaned = above ++ r :: (hidden ++ last :: below)) :
    (s.foldBehind r.id (hidden.map (·.id)) last.id).Settled ∧
      (s.foldBehind r.id (hidden.map (·.id)) last.id).rows.map Row.cleaned =
        above ++ r.holding (hidden ++ [last]) :: below := by
  set ids := r.id :: (hidden.map (·.id) ++ [last.id]) with hids
  have hleads := refreshAll_leads s ids
  obtain ⟨hsettled, hsame⟩ := hleads.settled h hs
  rw [hr] at hsame
  obtain ⟨above', rest, hrows, rfl, hrest⟩ := List.map_eq_append_iff.1 hsame
  obtain ⟨r', others, rfl, rfl, hothers⟩ := List.map_eq_cons_iff.1 hrest
  obtain ⟨hidden', under, rfl, rfl, hunder⟩ := List.map_eq_append_iff.1 hothers
  obtain ⟨last', below', rfl, rfl, rfl⟩ := List.map_eq_cons_iff.1 hunder
  obtain ⟨-, hnew⟩ := collapseClean_split (hleads.wellFormed h).sheet hrows
  have hfold : (s.foldBehind r'.cleaned.id ((hidden'.map Row.cleaned).map (·.id)) last'.cleaned.id).rows =
      above' ++ r'.covering (hidden' ++ [last']) :: dirtyFirst below' := hnew
  have hne : hidden' ++ [last'] ≠ [] := by simp
  have hkeeps := act_keeps (s.refreshAll ids).2 (.hide r'.id last'.id)
  have hcut : above' ++ r' :: (hidden' ++ last' :: below') = above' ++ r' :: ((hidden' ++ [last']) ++ below') := by simp
  rw [Settled, hrows, hcut] at hsettled
  refine ⟨?_, ?_⟩
  · rw [Settled, hfold]
    have hgrammar : (s.foldBehind r'.cleaned.id ((hidden'.map Row.cleaned).map (·.id)) last'.cleaned.id).grammar =
      (s.refreshAll ids).2.grammar := hkeeps.grammar
    have hignores : (s.foldBehind r'.cleaned.id ((hidden'.map Row.cleaned).map (·.id)) last'.cleaned.id).ignores =
      (s.refreshAll ids).2.ignores := hkeeps.ignores
    rw [hgrammar, hignores]
    refine (hsettled.covering hne).congr ?_
    rw [List.map_append, List.map_append, List.map_cons, List.map_cons, map_cleaned_dirtyFirst]
  · rw [hfold, List.map_append, List.map_cons, map_cleaned_dirtyFirst, Row.cleaned_covering r' hne, List.map_append]
    rfl

/-! ## Heaps -/

/-- the lines of the beginning lie in heaps: the rows gathered as far as they reach, each line held by the first line of
its heap -/
structure Gathering (rows : List Row) (ends : Nat → Nat) (s : Session) (holders : Holders) : Prop where
  wellFormed : s.WellFormed
  settled : s.Settled
  tracks : Tracks (rows.map (·.id)) s.document holders
  gathered : s.rows.map Row.cleaned = (gather Row.holding ends 0 rows).map (·.2)
  held : ∀ row id, (rows.map (·.id))[row]? = some id → ∃ heap ∈ gather Row.holding ends 0 rows, heap.1 ≤ row ∧
    (∀ other ∈ gather Row.holding ends 0 rows, other.1 ≤ row → other.1 ≤ heap.1) ∧ visible holders id = heap.2.id

namespace Gathering

theorem order (h : Gathering rows ends s holders) :
    s.document.order = (gather Row.holding ends 0 rows).map fun heap => heap.2.id := by
  calc s.document.order
      _ = (s.rows.map Row.cleaned).map (·.id) := by
        rw [← Sheet.map_id_rows, List.map_map]
        rfl
      _ = (gather Row.holding ends 0 rows).map fun heap => heap.2.id := by
        rw [h.gathered, List.map_map]
        rfl

/-- before anything is folded every line is a heap of its own -/
theorem start (h : s.WellFormed) (hs : s.Settled) (hclean : ∀ r ∈ s.rows, r.state.dirty = false) :
    Gathering s.rows id s [] := by
  have hflat : gather Row.holding id 0 s.rows = numbered 0 s.rows := by
    have happend : gather Row.holding id 0 (s.rows ++ []) = numbered 0 s.rows ++ gather Row.holding id (0 + s.rows.length) [] :=
      gather_append_of_flat Row.holding_nil fun c _ _ => Nat.le_refl c
    rwa [List.append_nil, gather, List.append_nil] at happend
  refine ⟨h, hs, ?_, ?_, ?_⟩
  · rw [Sheet.map_id_rows]
    exact Tracks.refl h.sheet.document
  · rw [hflat, map_snd_numbered, map_cleaned_of_clean hclean]
  · intro row id hid
    rw [List.getElem?_map] at hid
    obtain ⟨r, hr, rfl⟩ := Option.map_eq_some_iff.1 hid
    rw [hflat]
    refine ⟨(row, r), ?_, Nat.le_refl _, fun _ _ hle => hle, holderOf_of_none rfl _⟩
    have hmem := mem_numbered_of_getElem? 0 hr
    rwa [Nat.zero_add] at hmem

section Fold

variable (h : Gathering rows ends s holders) {above : List Row} {b : Nat} {y : Row} {taken left : List (Nat × Row)}
  (hheaps : gather Row.holding ends 0 rows = numbered 0 above ++ (b, y) :: (taken ++ left))
include h hheaps

theorem order_split : s.document.order =
    above.map (·.id) ++ y.id :: (taken.map (fun heap => heap.2.id) ++ left.map fun heap => heap.2.id) := by
  have habove : (numbered 0 above).map (fun heap => heap.2.id) = above.map (·.id) := by
    conv_rhs => rw [← map_snd_numbered 0 above, List.map_map]
    rfl
  rw [h.order, hheaps, List.map_append, habove, List.map_cons, List.map_append]

/-- the heaps that go behind another are held by the first row of that -/
theorem held_fold (hnew : gather Row.holding ends' 0 rows = numbered 0 above ++ (b, y.holding (taken.map (·.2))) :: left)
    {row : Nat} {id : LineId} (hid : (rows.map (·.id))[row]? = some id) :
    ∃ heap ∈ gather Row.holding ends' 0 rows, heap.1 ≤ row ∧
      (∀ other ∈ gather Row.holding ends' 0 rows, other.1 ≤ row → other.1 ≤ heap.1) ∧
      visible (hold holders y.id (taken.map fun heap => heap.2.id)) id = heap.2.id := by
  have ho := h.order_split hheaps
  have hn := h.wellFormed.sheet.document.nodup
  rw [ho, List.nodup_append, List.nodup_cons, List.nodup_append] at hn
  obtain ⟨-, ⟨hout, -, -, hapart⟩, habove⟩ := hn
  have hout : y.id ∉ taken.map fun heap => heap.2.id := fun hm => hout (List.mem_append_left _ hm)
  have hvisible := h.tracks.visible_hold (by rw [ho]; simp) hout (by rw [ho]; intro id hid; simp [hid])
    (List.mem_of_getElem? hid)
  have hsorted : (numbered 0 above ++ (b, y) :: (taken ++ left)).Pairwise fun p q => p.1 < q.1 := hheaps ▸ gather_sorted
  rw [List.pairwise_append, List.pairwise_cons, List.pairwise_append] at hsorted
  obtain ⟨-, ⟨hbelow, -, -, hlater⟩, hfirst⟩ := hsorted
  obtain ⟨heap, hheap, hle, hmax, hholds⟩ := h.held row id hid
  rw [hheaps] at hheap hmax
  rw [hvisible, hholds, hnew]
  have hmax' : ∀ other ∈ numbered 0 above ++ (b, y.holding (taken.map (·.2))) :: left, other.1 ≤ row →
      other.1 ≤ heap.1 := by
    intro other hother hrow
    rcases List.mem_append.1 hother with hother | hother
    · exact hmax other (by simp [hother]) hrow
    · rcases List.mem_cons.1 hother with rfl | hother
      · exact hmax (b, y) (by simp) hrow
      · exact hmax other (by simp [hother]) hrow
  rcases List.mem_append.1 hheap with hheap | hheap
  · have hnot : heap.2.id ∉ taken.map fun heap => heap.2.id := by
      intro hm
      refine habove heap.2.id ?_ heap.2.id (by simp [hm]) rfl
      have hrow := List.mem_map_of_mem (f := fun heap : Nat × Row => heap.2) hheap
      rw [map_snd_numbered] at hrow
      exact List.mem_map_of_mem hrow
    exact ⟨heap, by simp [hheap], hle, hmax', if_neg hnot⟩
  rcases List.mem_cons.1 hheap with rfl | hheap
  · exact ⟨(b, y.holding (taken.map (·.2))), by simp, hle, hmax', by rw [if_neg hout, Row.id_holding]⟩
  rcases List.mem_append.1 hheap with hheap | hheap
  · -- a heap that is taken ends here, and the next one comes below the row
    have hb := hbelow heap (by simp [hheap])
    refine ⟨(b, y.holding (taken.map (·.2))), by simp, by simp only at hb ⊢; omega, ?_, ?_⟩
    · intro other hother hrow
      rcases List.mem_append.1 hother with hother | hother
      · exact (hfirst other hother (b, y) (by simp)).le
      · rcases List.mem_cons.1 hother with rfl | hother
        · exact Nat.le_refl _
        · have hlt := hlater heap hheap other hother
          have hle' := hmax other (by simp [hother]) hrow
          omega
    · rw [if_pos (List.mem_map_of_mem (f := fun heap : Nat × Row => heap.2.id) hheap), Row.id_holding]
  · have hnot : heap.2.id ∉ taken.map fun heap => heap.2.id := fun hm =>
      hapart heap.2.id hm heap.2.id (List.mem_map_of_mem (f := fun heap : Nat × Row => heap.2.id) hheap) rfl
    exact ⟨heap, by simp [hheap], hle, hmax', if_neg hnot⟩

/-- **Folding a block gathers its heaps behind the first one.** -/
theorem fold (hnew : gather Row.holding ends' 0 rows = numbered 0 above ++ (b, y.holding (taken.map (·.2))) :: left)
    {front : List (Nat × Row)} {last : Nat × Row} (hlast : taken = front ++ [last]) :
    Gathering rows ends' (s.foldBehind y.id (front.map fun heap => heap.2.id) last.2.id)
      (hold holders y.id (taken.map fun heap => heap.2.id)) := by
  have ho := h.order_split hheaps
  have hids : taken.map (fun heap => heap.2.id) = front.map (fun heap => heap.2.id) ++ [last.2.id] := by
    rw [hlast, List.map_append]
    rfl
  have hrows : s.rows.map Row.cleaned =
      above ++ y :: (front.map (·.2) ++ last.2 :: left.map (·.2)) := by
    rw [h.gathered, hheaps, List.map_append, map_snd_numbered, hlast]
    simp
  obtain ⟨hsettled, hgathered⟩ := foldBehind_rows h.wellFormed h.settled hrows
  simp only [List.map_map, Function.comp_def] at hsettled hgathered
  have ho' : s.document.order = above.map (·.id) ++ y.id :: (front.map (fun heap => heap.2.id) ++ [last.2.id]) ++
      left.map fun heap => heap.2.id := by
    rw [ho, hids]
    simp
  have hw := (foldBehind_leads h.wellFormed ho').wellFormed h.wellFormed
  refine ⟨hw, hsettled, ?_, ?_, fun row id hid => h.held_fold hheaps hnew hid⟩
  · exact h.tracks.covering h.wellFormed.sheet.document hw.sheet.document ho (foldBehind_order h.wellFormed ho')
  · rw [hgathered, hnew, List.map_append, map_snd_numbered, List.map_cons, hlast, List.map_append]
    rfl

end Fold

/-! ### The next segment -/

section Next

variable {todo done rest : List Segment} {t : Segment} {last : Option Segment} {above : List Row} {y : Row}
  {left : List (Nat × Row)}

/-- the heaps below that of the line on which the next segment begins; what is hidden next is at the top of them -/
structure Next (rows above : List Row) (y : Row) (left : List (Nat × Row)) (todo done : List Segment) (t : Segment) :
    Prop where
  length : above.length = t.start.row
  heaps : gather Row.holding (reachIn todo done) 0 rows = numbered 0 above ++ (t.start.row, y) :: left
  below : ∀ heap ∈ left, reachIn todo done t.start.row < heap.1
  folded : reachIn todo done t.start.row < t.hideable →
    gather Row.holding (Function.update (reachIn todo done) t.start.row t.hideable) 0 rows = numbered 0 above ++
      (t.start.row, y.holding ((left.takeWhile fun heap => heap.1 ≤ t.hideable).map (·.2))) ::
        left.dropWhile fun heap => heap.1 ≤ t.hideable

theorem exists_next (hp : Passed rows.length todo done (t :: rest) last) : ∃ above y left, Next rows above y left todo done t := by
  have hproper := hp.plan.proper t hp.next_mem
  have hlt : t.start.row < rows.length := by omega
  have hlen : (rows.take t.start.row).length = t.start.row := by
    rw [List.length_take]
    omega
  have hcut : rows = rows.take t.start.row ++ rows[t.start.row] :: rows.drop (t.start.row + 1) := by simp
  obtain ⟨y, left, hheaps, hbelow, hnew⟩ := gather_update Row.holding_nil Row.holding_holding (rows.take t.start.row)
    rows[t.start.row] (rows.drop (t.start.row + 1))
    (fun c hc => (hp.split_plan.reachIn_above todo (hlen ▸ hc)).le) (Nat.le_max_left _ t.hideable)
  rw [hlen, ← hcut] at hheaps hnew
  rw [hlen] at hbelow
  refine ⟨_, y, left, hlen, hheaps, hbelow, fun hmore => ?_⟩
  rwa [Nat.max_eq_right hmore.le] at hnew

namespace Next

variable (hn : Next rows above y left todo done t)
include hn

theorem sorted : (numbered 0 above ++ (t.start.row, y) :: left).Pairwise fun p q => p.1 < q.1 := hn.heaps ▸ gather_sorted

theorem sorted_left : left.Pairwise fun p q => p.1 < q.1 :=
  (List.pairwise_cons.1 (List.pairwise_append.1 hn.sorted).2.1).2

/-- a heap from the line of the segment on is the one of that line, or below it -/
theorem mem_left {heap : Nat × Row} (hheap : heap ∈ gather Row.holding (reachIn todo done) 0 rows)
    (hle : t.start.row ≤ heap.1) : heap = (t.start.row, y) ∨ heap ∈ left := by
  rw [hn.heaps] at hheap
  rcases List.mem_append.1 hheap with hheap | hheap
  · have hrow := (mem_numbered hheap).2
    have hlen := hn.length
    omega
  · exact List.mem_cons.1 hheap

/-- what the segment would newly hide is there -/
theorem taken_ne_nil (hp : Passed rows.length todo done (t :: rest) last)
    (hlt : reachIn todo done t.start.row < t.hideable) : left.takeWhile (fun heap => heap.1 ≤ t.hideable) ≠ [] := by
  have hproper := hp.plan.proper t hp.next_mem
  have hhides := t.hideable_le
  have hself := le_reachIn todo done t.start.row
  have hvisible : ∃ x, (reachIn todo done t.start.row + 1, x) ∈ gather Row.holding (reachIn todo done) 0 rows :=
    mem_gather_of_unreached (Nat.zero_le _) (by omega)
      fun c _ hc => Nat.lt_succ_of_le (hp.unreached_below (Nat.le_of_lt_succ hc))
  obtain ⟨x, hx⟩ := hvisible
  rcases hn.mem_left hx (by simp only; omega) with heq | hleft
  · have hrow := congrArg Prod.fst heq
    simp only at hrow
    omega
  · exact List.ne_nil_of_mem (mem_takeWhile_of_le hn.sorted_left hleft hlt)

variable (h : Gathering rows (reachIn todo done) s holders)
include h

/-- the line on which the segment begins is visible -/
theorem visible_start (hstart : (rows.map (·.id))[t.start.row]? = some t.start.line) :
    visible holders t.start.line = y.id := by
  obtain ⟨heap, hheap, hle, hmax, hholds⟩ := h.held _ _ hstart
  have hself := hmax (t.start.row, y) (by rw [hn.heaps]; simp) (Nat.le_refl _)
  rcases hn.mem_left hheap hself with rfl | hleft
  · exact hholds
  · have hbelow := hn.below heap hleft
    have hself := le_reachIn todo done t.start.row
    omega

/-- the last line of a segment is in the last heap that the segment can hide with that line -/
theorem visible_stop (hp : Passed rows.length todo done (t :: rest) last)
    (hstop : (rows.map (·.id))[t.stop.row]? = some t.stop.line) : visible holders t.stop.line =
      ((left.takeWhile fun heap => heap.1 ≤ t.stop.row).map fun heap => heap.2.id).getLast?.getD y.id := by
  have hproper := hp.plan.proper t hp.next_mem
  obtain ⟨heap, hheap, hle, hmax, hholds⟩ := h.held _ _ hstop
  have hself := hmax (t.start.row, y) (by rw [hn.heaps]; simp) hproper.1.le
  rw [hholds]
  rcases List.eq_nil_or_concat (left.takeWhile fun heap => heap.1 ≤ t.stop.row) with hnil | ⟨front, x, hconcat⟩
  · rcases hn.mem_left hheap hself with rfl | hleft
    · rw [hnil]
      rfl
    · have htaken := mem_takeWhile_of_le hn.sorted_left hleft hle
      rw [hnil] at htaken
      cases htaken
  · rw [List.concat_eq_append] at hconcat
    have hx : x ∈ left.takeWhile fun heap => heap.1 ≤ t.stop.row := by simp [hconcat]
    have hxleft := (List.takeWhile_sublist _).subset hx
    have hxmax := hmax x (by rw [hn.heaps]; simp [hxleft]) (le_of_mem_takeWhile hx)
    have hxbelow := hn.below x hxleft
    have hreach := le_reachIn todo done t.start.row
    rcases hn.mem_left hheap hself with rfl | hleft
    · simp only at hxmax
      omega
    · have htaken := mem_takeWhile_of_le hn.sorted_left hleft hle
      have hsorted := hn.sorted_left.sublist (List.takeWhile_sublist fun heap => decide (heap.1 ≤ t.stop.row))
      rw [hconcat] at htaken hsorted
      rw [hconcat, List.map_append, List.map_singleton, List.getLast?_concat]
      rcases List.mem_append.1 htaken with hfront | hlast
      · have hlt := (List.pairwise_append.1 hsorted).2.2 heap hfront x (by simp)
        omega
      · rw [List.mem_singleton.1 hlast]
        rfl

/-- **What the next segment hides** are the heaps down to its last line, or to the line above that. -/
theorem block? (hp : Passed rows.length todo done (t :: rest) last)
    (hstart : (rows.map (·.id))[t.start.row]? = some t.start.line)
    (hstop : (rows.map (·.id))[t.stop.row]? = some t.stop.line) :
    Sheet.block? s.document (resolve holders t) = .ok
      (((left.takeWhile fun heap => heap.1 ≤ t.hideable).map fun heap => heap.2.id).getLast?.map (y.id, ·)) := by
  have hdoc := h.wellFormed.sheet.document
  have hheaps := hn.heaps
  rw [← List.takeWhile_append_dropWhile (p := fun heap : Nat × Row => decide (heap.1 ≤ t.hideable)) (l := left)] at hheaps
  have ho := h.order_split hheaps
  have hfirst := hn.visible_start h hstart
  have hlast := hn.visible_stop h hp hstop
  cases hb : t.has .beginOnly with
  | false =>
    rw [Segment.hideable_of_plain hb] at ho ⊢
    exact Sheet.block?_plain hdoc ho hb hfirst hlast
  | true =>
    -- the last line is visible, as the first one that stays
    have hproper := hp.plan.proper t hp.next_mem
    have hhides := Segment.hideable_of_beginOnly hb
    have hvisible : ∃ z, (t.stop.row, z) ∈ gather Row.holding (reachIn todo done) 0 rows :=
      mem_gather_of_unreached (Nat.zero_le _) (by omega) fun c _ hc => hp.unreached_last hb hc
    obtain ⟨z, hz⟩ := hvisible
    have hzleft : (t.stop.row, z) ∈ left := by
      rcases hn.mem_left hz hproper.1.le with heq | hleft
      · have hrow := congrArg Prod.fst heq
        simp only at hrow
        omega
      · exact hleft
    have hrow : t.stop.row = t.hideable + 1 := by omega
    rw [hrow] at hzleft
    obtain ⟨⟨under, hunder⟩, htaken⟩ := cut_above hn.sorted_left hzleft
    have hvisible : (resolve holders t).stop.line = z.id := by
      change visible holders t.stop.line = z.id
      rw [hlast, hrow, htaken, List.map_append, List.map_singleton, List.getLast?_concat]
      rfl
    rw [hunder, List.map_cons, ← hvisible] at ho
    exact Sheet.block?_beginOnly hdoc ho hb hfirst

end Next

end Next

/-- **The pass gathers the rows as far as their lines reach.** It folds nothing exactly if no line reaches further than it
did, and then changes nothing. -/
theorem run {todo done rest : List Segment} {last : Option Segment} (h : Gathering rows (reachIn todo done) s holders)
    (hp : Passed rows.length todo done rest last)
    (hlines : ∀ t ∈ todo, (rows.map (·.id))[t.start.row]? = some t.start.line ∧
      (rows.map (·.id))[t.stop.row]? = some t.stop.line) :
    ∃ count t holders', s.collapseEach holders last rest = (.ok count, t) ∧ Gathering rows (fullReach todo) t holders' ∧
      (count = 0 ↔ fullReach todo = reachIn todo done) ∧ (count = 0 → t = s) := by
  induction rest generalizing s holders last done with
  | nil =>
    obtain rfl : todo = done := by rw [hp.split, List.append_nil]
    exact ⟨0, s, holders, rfl, h, iff_of_true rfl rfl, fun _ => rfl⟩
  | cons t rest ih =>
    by_cases hskip : last.any (·.contains t) = true
    · obtain ⟨hreach, hp'⟩ := hp.skip hskip
      rw [collapseEach, if_pos hskip, ← hreach]
      exact ih (hreach ▸ h) hp'
    obtain ⟨hstart, hstop⟩ := hlines t hp.next_mem
    obtain ⟨above, y, left, hn⟩ := exists_next hp
    have hblock := hn.block? h hp hstart hstop
    rcases Nat.lt_or_ge (reachIn todo done t.start.row) t.hideable with hmore | hless
    · obtain ⟨hreach, hp'⟩ := hp.fold hskip hmore
      obtain ⟨front, x, hfront⟩ := (List.eq_nil_or_concat _).resolve_left (hn.taken_ne_nil hp hmore)
      rw [List.concat_eq_append] at hfront
      have hheaps := hn.heaps
      rw [← List.takeWhile_append_dropWhile (p := fun heap : Nat × Row => decide (heap.1 ≤ t.hideable)) (l := left)]
        at hheaps
      have hnew := hn.folded hmore
      rw [← hreach] at hnew
      have hfolded := h.fold hheaps hnew hfront
      obtain ⟨count, u, holders', heach, hall, -, -⟩ := ih hfolded hp'
      have ho := h.order_split hheaps
      rw [hfront, List.map_append, List.map_singleton] at ho hblock heach
      rw [List.getLast?_concat] at hblock
      have ho' : s.document.order = above.map (·.id) ++ y.id :: (front.map (fun heap => heap.2.id) ++ [x.2.id]) ++
          (left.dropWhile fun heap => heap.1 ≤ t.hideable).map fun heap => heap.2.id := by
        rw [ho]
        simp
      refine ⟨count + 1, u, holders', ?_, hall, ?_, fun hzero => absurd hzero (Nat.succ_ne_zero count)⟩
      · rw [collapseEach_fold h.wellFormed ho' hskip hblock, heach]
        rfl
      · -- the line of the segment reaches further now
        refine iff_of_false (Nat.succ_ne_zero count) fun hsame => ?_
        have hle := reachIn_le_append todo (done ++ [t]) rest t.start.row
        rw [← hp'.split, hreach, Function.update_self] at hle
        have heq := congrFun hsame t.start.row
        rw [fullReach] at heq
        omega
    · obtain ⟨hreach, hp'⟩ := hp.idle hskip hless
      have hnone : left.takeWhile (fun heap => heap.1 ≤ t.hideable) = [] := by
        refine List.eq_nil_iff_forall_not_mem.2 fun heap hheap => ?_
        have hlt := hn.below heap ((List.takeWhile_sublist _).subset hheap)
        have hle := le_of_mem_takeWhile hheap
        omega
      rw [hnone] at hblock
      rw [collapseEach, if_neg hskip, hblock, ← hreach]
      exact ih (hreach ▸ h) hp'

end Gathering

/-! ## All blocks -/

/-- the segments that folding all blocks goes through -/
def toFold (s : Session) (kind : Nat) : List Segment :=
  (Layout.build (s.rehighlight.2.foldLines kind)).segments.filter Segment.eligible

theorem toFold_nested (s : Session) (kind b c : Nat) (hlt : b < c) (hle : c ≤ fullReach (s.toFold kind) b) :
    fullReach (s.toFold kind) c ≤ fullReach (s.toFold kind) b :=
  (Layout.build_plan (s.rehighlight.2.foldLines kind)).fullReach_nested b c hlt hle

/-- **Folding all blocks gathers the rows as far as their lines reach**, once they are up to date. It folds nothing exactly if
no line reaches below itself, and then does no more than bring the lines up to date. -/
theorem collapseBlocks_gathers (h : Reachable s) {kind : Nat} (hk : kind < s.grammar.delimiters.length) :
    ∃ count, (s.collapseBlocks kind).1 = .ok count ∧ (s.collapseBlocks kind).2.Settled ∧
      (s.collapseBlocks kind).2.rows.map Row.cleaned =
        (gather Row.holding (fullReach (s.toFold kind)) 0 s.rehighlight.2.rows).map (·.2) ∧
      (count = 0 ↔ fullReach (s.toFold kind) = id) ∧
      (count = 0 → (s.collapseBlocks kind).2.toSheet = s.rehighlight.2.toSheet) := by
  have ht : Reachable (s.segments kind).2 := h.step (.segments kind)
  have hsheet : (s.segments kind).2.toSheet = s.rehighlight.2.toSheet := layout_sheet h.wellFormed hk
  have hanswer : s.segments kind =
      (.ok (Layout.build (s.rehighlight.2.foldLines kind)).segments, (s.segments kind).2) :=
    Prod.ext (segments_eq h hk) rfl
  have hlines : s.rehighlight.2.foldLines kind = (s.segments kind).2.foldLines kind := by rw [hsheet]
  have hleads : Leads (·.isReading) s (s.segments kind).2 := layout_leads h.wellFormed kind
  have hread := rehighlight_leads s
  set t := (s.segments kind).2
  have hrows : t.rows = s.rehighlight.2.rows := by rw [hsheet]
  have hsettled : t.Settled := by
    have hs := h.settled
    rwa [Settled, hread.grammar, hread.ignores, ← hleads.grammar, ← hleads.ignores, ← hrows] at hs
  have hclean : ∀ r ∈ t.rows, r.state.dirty = false := hrows ▸ rehighlight_rows_clean h.wellFormed
  have hids : t.rows.map (·.id) = t.document.order := t.toSheet.map_id_rows
  have hcount : (t.foldLines kind).length = t.rows.length := by
    have hlength := congrArg List.length (map_seen_foldLines ht.wellFormed.sheet kind)
    rwa [List.length_map, List.length_map] at hlength
  have hplan : Plan t.rows.length (s.toFold kind) := by
    rw [← hcount, toFold, hlines]
    exact Layout.build_plan _
  have hplaced : ∀ segment ∈ s.toFold kind, (t.rows.map (·.id))[segment.start.row]? = some segment.start.line ∧
      (t.rows.map (·.id))[segment.stop.row]? = some segment.stop.line := by
    intro segment hsegment
    rw [toFold, hlines] at hsegment
    have hlocates := build_locates ht.wellFormed ht.proper (List.mem_of_mem_filter hsegment)
    rw [hids]
    exact ⟨Document.getElem?_of_row? ht.wellFormed.sheet.document hlocates.start.row,
      Document.getElem?_of_row? ht.wellFormed.sheet.document hlocates.stop.row⟩
  obtain ⟨count, u, holders, heach, hgathered, hiff, hsame⟩ :=
    (Gathering.start ht.wellFormed hsettled hclean).run (.start hplan) hplaced
  have hall : s.collapseBlocks kind = (.ok count, u.log [.blocksCollapsed count]) := by
    have heach' : t.collapseEach [] none ((Layout.build (s.rehighlight.2.foldLines kind)).segments.filter fun segment =>
        !segment.has .collapsed && !segment.isEmpty) = (.ok count, u) := heach
    rw [collapseBlocks, hanswer]
    simp only [heach']
  rw [hall, ← hrows, ← hsheet]
  refine ⟨count, rfl, hgathered.settled, hgathered.gathered, hiff, fun hzero => ?_⟩
  rw [hsame hzero]
  rfl

/-- two blocks next to each other in a third one; the line between them ends the first and begins the second -/
def sharedSession : Session :=
  start commentsAndBraces
    (.ofText ['{', '\n', '{', '\n', 'x', '\n', '}', '{', '\n', 'y', '\n', '}', '\n', '}'])

/-- a line that opens two blocks, and one below that closes one of them and opens another; both are open at the end -/
def leftOutSession : Session := start commentsAndBraces (.ofText ['{', '{', '\n', 'x', '\n', '}', '{'])

end Session

end Linewise
