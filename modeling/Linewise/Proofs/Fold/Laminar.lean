/-
Fold segments never cross, inner ones come first, and every block that is opened becomes one.

Blocks are closed innermost first, so none that is left open when another one ends began inside that one
(`Laminar.outside`). A line keeps this, and with it that the stretches closed so far do not cross (`Laminar.step`).
Nothing is lost on the way either: the stretches begin where lines open blocks, and at collapsed lines
(`Sweep.starts_stretches`).

Main statement: `build_laminar`.
-/
import Linewise.Proofs.Fold.Blocks

namespace Linewise

/-- the second stretch of rows begins inside the first one and ends behind it -/
def Crosses (p q : Nat × Nat) : Prop := p.1 < q.1 ∧ q.1 < p.2 ∧ p.2 < q.2

/-! ## Stretches of rows -/

/-- a sweep over the rows above `row`: blocks further in began later, the stretches closed do not cross, and none of the
open blocks began inside one of them -/
structure Laminar (row : Nat) (s : Sweep Nat) : Prop where
  above : ∀ block ∈ s.stack, block.1 < row
  inward : s.stack.Pairwise fun inner outer => outer.1 ≤ inner.1
  proper : ∀ p ∈ s.closed, p.1 ≤ p.2 ∧ p.2 < row
  uncrossed : ∀ p ∈ s.closed, ∀ q ∈ s.closed, ¬ Crosses p q
  outside : ∀ p ∈ s.closed, ∀ block ∈ s.stack, block.1 ≤ p.1 ∨ p.2 ≤ block.1

namespace Sweep

variable {α : Type} {s : Sweep α} {m : Mark α}

theorem mem_step_stack {block : α × Bool} (hb : block ∈ (s.step m).stack) :
    block.1 = m.label ∨ block ∈ s.stack.drop (closes s.stack m) := by
  rcases List.mem_append.1 hb with hb | hb
  · exact Or.inl (congrArg Prod.fst (List.eq_of_mem_replicate hb))
  · exact Or.inr hb

theorem mem_step_closed {p : α × α} (hp : p ∈ (s.step m).closed) :
    p ∈ s.closed ∨ (∃ block ∈ s.stack.take (closes s.stack m), p = (block.1, m.label)) ∨ p = (m.label, m.label) := by
  rcases Multiset.mem_add.1 hp with hp | hp
  · rcases Multiset.mem_add.1 hp with hp | hp
    · exact Or.inl hp
    · obtain ⟨block, hb, rfl⟩ := List.mem_map.1 (Multiset.mem_coe.1 hp)
      exact Or.inr (Or.inl ⟨block, hb, rfl⟩)
  · unfold Mark.alone at hp
    split_ifs at hp
    · exact Or.inr (Or.inr (Multiset.mem_singleton.1 hp))
    · exact absurd hp (Multiset.notMem_zero _)

end Sweep

namespace Laminar

open Sweep

variable {row : Nat} {s : Sweep Nat} {m : Mark Nat}

/-- **A line keeps the stretches laminar.** What it closes ends at its row, so it can cross an earlier stretch only if the
block began inside that one. -/
theorem step (h : Laminar row s) (hm : m.label = row) : Laminar (row + 1) (s.step m) := by
  have hinward := h.inward
  rw [← List.take_append_drop (closes s.stack m) s.stack] at hinward
  obtain ⟨-, hrest, hfurther⟩ := List.pairwise_append.1 hinward
  have htaken : ∀ block ∈ s.stack.take (closes s.stack m), block ∈ s.stack := fun block hb => List.mem_of_mem_take hb
  have hleft : ∀ block ∈ s.stack.drop (closes s.stack m), block ∈ s.stack := fun block hb => List.mem_of_mem_drop hb
  -- an old stretch ends above the row, and a new one ends at it and began as an open block or there
  have hends : ∀ p ∈ (s.step m).closed, p ∈ s.closed ∨
      p.2 = row ∧ ((∃ block ∈ s.stack.take (closes s.stack m), p.1 = block.1) ∨ p.1 = row) := by
    intro p hp
    rcases mem_step_closed hp with hp | ⟨block, hb, rfl⟩ | rfl
    · exact Or.inl hp
    · exact Or.inr ⟨hm, Or.inl ⟨block, hb, rfl⟩⟩
    · exact Or.inr ⟨hm, Or.inr hm⟩
  refine ⟨?_, ?_, ?_, ?_, ?_⟩
  · intro block hb
    rcases mem_step_stack hb with hb | hb
    · omega
    · have habove := h.above block (hleft block hb)
      omega
  · refine List.pairwise_append.2 ⟨?_, hrest, ?_⟩
    · exact List.pairwise_replicate.2 (Or.inr (Nat.le_refl _))
    · intro inner hinner outer houter
      rw [List.eq_of_mem_replicate hinner, hm]
      exact Nat.le_of_lt (h.above outer (hleft outer houter))
  · intro p hp
    rcases hends p hp with hp | ⟨hend, ⟨block, hb, hbegin⟩ | hbegin⟩
    · have hproper := h.proper p hp
      omega
    · have habove := h.above block (htaken block hb)
      omega
    · omega
  · rintro p hp q hq ⟨hbegins, hinside, hbehind⟩
    rcases hends q hq with hq | ⟨hend, hbegin⟩
    · have hproper := h.proper q hq
      rcases hends p hp with hp | ⟨hend, -⟩
      · exact h.uncrossed p hp q hq ⟨hbegins, hinside, hbehind⟩
      · omega
    · rcases hends p hp with hp | ⟨hend', -⟩
      · rcases hbegin with ⟨block, hb, hbegin⟩ | hbegin
        · have houtside := h.outside p hp block (htaken block hb)
          omega
        · omega
      · omega
  · intro p hp block hb
    rcases hends p hp with hp | ⟨hend, hbegin⟩
    · rcases mem_step_stack hb with hb | hb
      · have hproper := h.proper p hp
        omega
      · exact h.outside p hp block (hleft block hb)
    · rcases mem_step_stack hb with hb | hb
      · omega
      · rcases hbegin with ⟨taken, ht, hbegin⟩ | hbegin
        · have houter := hfurther taken ht block hb
          omega
        · have habove := h.above block (hleft block hb)
          omega

/-- what is open ends at the last row -/
theorem stretches {last : Nat} (h : Laminar (last + 1) s) :
    (∀ p ∈ s.stretches last, p.1 ≤ p.2 ∧ p.2 ≤ last) ∧
      ∀ p ∈ s.stretches last, ∀ q ∈ s.stretches last, ¬ Crosses p q := by
  have hends : ∀ p ∈ s.stretches last, p ∈ s.closed ∨ p.2 = last ∧ ∃ block ∈ s.stack, p.1 = block.1 := by
    intro p hp
    rcases Multiset.mem_add.1 hp with hp | hp
    · exact Or.inl hp
    · obtain ⟨block, hb, rfl⟩ := List.mem_map.1 (Multiset.mem_coe.1 hp)
      exact Or.inr ⟨rfl, block, hb, rfl⟩
  have hproper : ∀ p ∈ s.stretches last, p.1 ≤ p.2 ∧ p.2 ≤ last := by
    intro p hp
    rcases hends p hp with hp | ⟨hend, block, hb, hbegin⟩
    · have hproper := h.proper p hp
      omega
    · have habove := h.above block hb
      omega
  refine ⟨hproper, ?_⟩
  rintro p hp q hq ⟨hbegins, hinside, hbehind⟩
  have hlast := (hproper q hq).2
  rcases hends p hp with hp | ⟨hend, -⟩
  · rcases hends q hq with hq | ⟨-, block, hb, hbegin⟩
    · exact h.uncrossed p hp q hq ⟨hbegins, hinside, hbehind⟩
    · have houtside := h.outside p hp block hb
      omega
  · omega

end Laminar

/-! ## Rows of lines -/

/-- what folding reads of lines from a row on, by row -/
def rowMarks (row : Nat) (lines : List FoldLine) : List (Mark Nat) := (marksFrom row lines).map (Mark.map Prod.snd)

/-- how many segments begin at a line: as many as it opens blocks, and one more if it is collapsed -/
def FoldLine.begins (line : FoldLine) : Nat := (line.tally.pair line.ignored).opened + if line.collapsed then 1 else 0

theorem Laminar.run {row : Nat} {s : Sweep Nat} (h : Laminar row s) (lines : List FoldLine) :
    Laminar (row + lines.length) (s.run (rowMarks row lines)) := by
  induction lines generalizing row s with
  | nil => exact h
  | cons line lines ih =>
    have hrun := ih (h.step (m := (line.mark row).map Prod.snd) rfl)
    rw [List.length_cons, ← Nat.add_assoc, Nat.add_right_comm]
    exact hrun

theorem starts_rowMark (row : Nat) (line : FoldLine) :
    ((line.mark row).map Prod.snd).starts = Multiset.replicate line.begins row := by
  have halone : (((line.mark row).map Prod.snd).alone).map Prod.fst = Multiset.replicate (if line.collapsed then 1 else 0) row := by
    unfold Mark.alone
    by_cases hc : line.collapsed = true
    · rw [if_pos hc, if_pos (show ((line.mark row).map Prod.snd).collapsed = true from hc)]
      rfl
    · rw [if_neg hc, if_neg (show ¬ ((line.mark row).map Prod.snd).collapsed = true from hc)]
      rfl
  rw [Mark.starts, halone, FoldLine.begins, Multiset.replicate_add]
  rfl

/-- the stretches that begin at a row are those that come of its line -/
theorem count_starts_rowMarks (row i : Nat) (lines : List FoldLine) :
    ((rowMarks row lines).map Mark.starts).sum.count (row + i) = (lines[i]?.map FoldLine.begins).getD 0 ∧
      ∀ x < row, ((rowMarks row lines).map Mark.starts).sum.count x = 0 := by
  induction lines generalizing row i with
  | nil => exact ⟨by simp [rowMarks, marksFrom], fun x _ => by simp [rowMarks, marksFrom]⟩
  | cons line lines ih =>
    have hcons : ∀ x, ((rowMarks row (line :: lines)).map Mark.starts).sum.count x =
        (if row = x then line.begins else 0) + ((rowMarks (row + 1) lines).map Mark.starts).sum.count x := by
      intro x
      rw [← Multiset.count_replicate, ← starts_rowMark, ← Multiset.count_add]
      rfl
    refine ⟨?_, fun x hx => ?_⟩
    · rw [hcons]
      cases i with
      | zero => simp [(ih (row + 1) 0).2 row (Nat.lt_succ_self row)]
      | succ i =>
        have hnext : row + (i + 1) = row + 1 + i := by omega
        rw [hnext, (ih (row + 1) i).1, if_neg (by omega), Nat.zero_add, List.getElem?_cons_succ]
    · rw [hcons, (ih (row + 1) 0).2 x (Nat.lt_succ_of_lt hx), if_neg (by omega)]

theorem card_starts_rowMarks (row : Nat) (lines : List FoldLine) :
    ((rowMarks row lines).map Mark.starts).sum.card =
      lines.countP (·.collapsed) + (lines.map fun line => (line.tally.pair line.ignored).opened).sum := by
  induction lines generalizing row with
  | nil => rfl
  | cons line lines ih =>
    have hcons : ((rowMarks row (line :: lines)).map Mark.starts).sum =
        Multiset.replicate line.begins row + ((rowMarks (row + 1) lines).map Mark.starts).sum := by
      rw [← starts_rowMark]
      rfl
    rw [hcons, Multiset.card_add, Multiset.card_replicate, ih, FoldLine.begins, List.countP_cons, List.map_cons,
      List.sum_cons]
    omega

/-! ## The order of segments -/

namespace Segment

variable {s t : Segment} {segments : List Segment}

theorem innerFirst_iff : s.innerFirst t = true ↔
    t.start.row < s.start.row ∨ s.start.row = t.start.row ∧ s.stop.row ≤ t.stop.row := by
  simp [innerFirst]

theorem place_sorted (s : Segment) (h : segments.Pairwise fun s t => s.innerFirst t = true) :
    (s.place segments).Pairwise fun s t => s.innerFirst t = true := by
  induction segments with
  | nil => exact List.pairwise_singleton _ _
  | cons t rest ih =>
    obtain ⟨hfirst, hrest⟩ := List.pairwise_cons.1 h
    rw [place]
    split_ifs with hst
    · refine List.pairwise_cons.2 ⟨?_, h⟩
      intro u hu
      rcases List.mem_cons.1 hu with rfl | hu
      · exact hst
      · have htu := hfirst u hu
        rw [innerFirst_iff] at hst htu ⊢
        omega
    · refine List.pairwise_cons.2 ⟨?_, ih hrest⟩
      intro u hu
      rcases List.mem_cons.1 ((place_perm s rest).mem_iff.1 hu) with rfl | hu
      · rw [innerFirst_iff] at hst ⊢
        omega
      · exact hfirst u hu

theorem sort_sorted (segments : List Segment) : (sort segments).Pairwise fun s t => s.innerFirst t = true := by
  induction segments with
  | nil => exact List.Pairwise.nil
  | cons s rest ih => exact place_sorted s ih

end Segment

/-! ## Layouts -/

/-- the rows between which a segment runs -/
def Segment.rows (s : Segment) : Nat × Nat := (s.start.row, s.stop.row)

/-- a segment lies in one before it exactly if the two have the same rows -/
theorem Segment.contains_iff_rows {s t : Segment} (h : s.innerFirst t = true) :
    s.contains t = true ↔ s.rows = t.rows := by
  rw [innerFirst_iff] at h
  simp only [contains, rows, Bool.and_eq_true, decide_eq_true_eq, Prod.mk.injEq]
  omega

namespace Layout

theorem rows_build (front : List FoldLine) (last : FoldLine) :
    ((build (front ++ [last])).segments.map Segment.rows : Multiset (Nat × Nat)) =
      (Sweep.run {} (rowMarks 0 (front ++ [last]))).stretches front.length := by
  have hrows : (build (front ++ [last])).segments.map Segment.rows =
      ((build (front ++ [last])).segments.map Segment.ends).map (Prod.map Prod.snd Prod.snd) := by
    rw [List.map_map]
    rfl
  rw [hrows, ← Multiset.map_coe, ends_build, Sweep.stretches_map, sweep, Sweep.map_run]
  rfl

/-- the rows at which segments begin -/
theorem starts_build (lines : List FoldLine) : ((build lines).segments.map (·.start.row) : Multiset Nat) =
    ((rowMarks 0 lines).map Mark.starts).sum := by
  rcases List.eq_nil_or_concat lines with rfl | ⟨front, last, rfl⟩
  · rfl
  · rw [List.concat_eq_append]
    have hstarts := congrArg (Multiset.map Prod.fst) (rows_build front last)
    rw [Multiset.map_coe, List.map_map, Sweep.starts_stretches, Multiset.map_zero, List.map_nil, Multiset.coe_nil, zero_add,
      zero_add] at hstarts
    exact hstarts

/-- the sweep over all lines by row is laminar -/
theorem laminar_rowMarks (lines : List FoldLine) : Laminar lines.length (Sweep.run {} (rowMarks 0 lines)) := by
  have hempty : Laminar 0 {} :=
    ⟨fun _ hb => absurd hb List.not_mem_nil, .nil, fun _ hp => absurd hp (Multiset.notMem_zero _),
      fun _ hp => absurd hp (Multiset.notMem_zero _), fun _ hp => absurd hp (Multiset.notMem_zero _)⟩
  have hrun := hempty.run lines
  rwa [Nat.zero_add] at hrun

/-- segments end at or below the row where they begin, and do not cross -/
theorem rows_laminar (lines : List FoldLine) :
    (∀ s ∈ (build lines).segments, s.start.row ≤ s.stop.row ∧ s.stop.row < lines.length) ∧
      ∀ s ∈ (build lines).segments, ∀ t ∈ (build lines).segments, ¬ Crosses s.rows t.rows := by
  rcases List.eq_nil_or_concat lines with rfl | ⟨front, last, rfl⟩
  · exact ⟨fun _ hs => absurd hs List.not_mem_nil, fun _ hs => absurd hs List.not_mem_nil⟩
  · rw [List.concat_eq_append]
    have hmem : ∀ s ∈ (build (front ++ [last])).segments,
        s.rows ∈ (Sweep.run {} (rowMarks 0 (front ++ [last]))).stretches front.length := by
      intro s hs
      rw [← rows_build]
      exact Multiset.mem_coe.2 (List.mem_map_of_mem hs)
    have hlength : (front ++ [last]).length = front.length + 1 := by simp
    obtain ⟨hproper, huncrossed⟩ := (hlength ▸ laminar_rowMarks (front ++ [last])).stretches
    refine ⟨?_, fun s hs t ht => huncrossed s.rows (hmem s hs) t.rows (hmem t ht)⟩
    intro s hs
    obtain ⟨hbegin, hend⟩ := hproper s.rows (hmem s hs)
    rw [List.length_append]
    exact ⟨hbegin, Nat.lt_succ_of_le hend⟩

/-- **Fold segments are laminar, inner ones first, and complete.** For every list of lines: each segment ends at or below
the row where it begins, within the lines; no two of them cross; one that lies strictly inside another comes before it;
there are as many as collapsed lines and blocks opened, each line counted in its own context; and at each row as many
begin as its line opens blocks, and one more if it is collapsed. -/
theorem build_laminar (lines : List FoldLine) :
    (∀ s ∈ (build lines).segments, s.start.row ≤ s.stop.row ∧ s.stop.row < lines.length) ∧
      (∀ s ∈ (build lines).segments, ∀ t ∈ (build lines).segments,
        ¬ (s.start.row < t.start.row ∧ t.start.row < s.stop.row ∧ s.stop.row < t.stop.row)) ∧
      ((build lines).segments.Pairwise fun s t => s.contains t = true → t.contains s = true) ∧
      (build lines).segments.length =
        lines.countP (·.collapsed) + (lines.map fun line => (line.tally.pair line.ignored).opened).sum ∧
      ∀ row, (build lines).segments.countP (·.start.row == row) =
        (lines[row]?.map fun line => (line.tally.pair line.ignored).opened + if line.collapsed then 1 else 0).getD 0 := by
  refine ⟨(rows_laminar lines).1, (rows_laminar lines).2, ?_, ?_, ?_⟩
  · -- of two segments in order the second one cannot lie strictly inside the first
    refine (Segment.sort_sorted _).imp fun {s t} hst hcontains => ?_
    rw [Segment.innerFirst_iff] at hst
    simp only [Segment.contains, Bool.and_eq_true, decide_eq_true_eq] at hcontains ⊢
    omega
  · have hcard := congrArg Multiset.card (starts_build lines)
    rwa [Multiset.coe_card, List.length_map, card_starts_rowMarks] at hcard
  · intro row
    have hcount := congrArg (Multiset.count row) (starts_build lines)
    have hrow := (count_starts_rowMarks 0 row lines).1
    rw [Nat.zero_add] at hrow
    rwa [hrow, Multiset.coe_count, List.count, List.countP_map] at hcount

end Layout

end Linewise
