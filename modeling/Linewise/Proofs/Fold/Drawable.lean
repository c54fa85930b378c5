/-
What is drawn of a layout, and which segment is found at a row.

A segment is left out if it lies in the last one drawn. Inner segments come first, so it can only have the rows of that one
(`Segment.contains_iff_rows`), and segments with the same rows stand together (`Segment.rows_of_between`). So the last one
drawn has the rows of the last one passed (`rows_lastDrawn`), and a segment is left out exactly if one with its rows was
passed (`leftOut_iff`).

Main statement: `drawable_firsts`.
-/
import Linewise.Proofs.Fold.Laminar

namespace Linewise

/-! ## The first segment with its rows -/

namespace Segment

variable {s t u : Segment} {segments : List Segment}

/-- the segments with rows that none before them has, in their order -/
def firsts (segments : List Segment) : List Segment :=
  (segments.zipIdx.filter fun place => (segments.take place.2).all (·.rows ≠ place.1.rows)).map Prod.fst

theorem firsts_concat (front : List Segment) (s : Segment) :
    firsts (front ++ [s]) = firsts front ++ if ∃ t ∈ front, t.rows = s.rows then [] else [s] := by
  -- one segment more changes nothing for those before it
  have hfront : (front.zipIdx.filter fun place => ((front ++ [s]).take place.2).all (·.rows ≠ place.1.rows)) =
      front.zipIdx.filter fun place => (front.take place.2).all (·.rows ≠ place.1.rows) := by
    refine List.filter_congr fun place hplace => ?_
    have hlt : place.2 < front.length := by simpa using (List.mem_zipIdx hplace).2.1
    rw [List.take_append_of_le_length hlt.le]
  rw [firsts, List.zipIdx_append, List.filter_append, hfront, List.map_append, ← firsts, Nat.zero_add,
    List.zipIdx_singleton, List.filter_singleton, List.take_left]
  by_cases hseen : ∃ t ∈ front, t.rows = s.rows
  · have hall : front.all (·.rows ≠ s.rows) = false := by simpa using hseen
    rw [if_pos hseen, hall]
    rfl
  · have hall : front.all (·.rows ≠ s.rows) = true := by simpa using hseen
    rw [if_neg hseen, hall]
    rfl

theorem rows_of_find? {p : Nat × Nat} (h : segments.find? (·.rows = p) = some s) : s.rows = p := by
  simpa using List.find?_some h

/-- **Of the segments with the same rows exactly the first is kept.** -/
theorem filter_firsts (segments : List Segment) (p : Nat × Nat) :
    (firsts segments).filter (·.rows = p) = (segments.find? (·.rows = p)).toList := by
  induction segments using List.reverseRecOn with
  | nil => rfl
  | append_singleton front s ih =>
    rw [firsts_concat, List.filter_append, ih, List.find?_append]
    by_cases hs : s.rows = p
    · cases hfound : front.find? (·.rows = p) with
      | none =>
        have hnew : ¬ ∃ t ∈ front, t.rows = s.rows := by
          rintro ⟨t, ht, hrows⟩
          exact List.find?_eq_none.1 hfound t ht (decide_eq_true (hrows.trans hs))
        rw [if_neg hnew]
        simp [hs]
      | some first =>
        have hold : ∃ t ∈ front, t.rows = s.rows :=
          ⟨first, List.mem_of_find?_eq_some hfound, (rows_of_find? hfound).trans hs.symm⟩
        rw [if_pos hold]
        rfl
    · split_ifs <;> simp [hs]

/-- every segment has one with its rows among the first ones -/
theorem exists_first (hs : s ∈ segments) :
    ∃ first ∈ firsts segments, first.rows = s.rows ∧ segments.find? (·.rows = s.rows) = some first := by
  have hfilter := filter_firsts segments s.rows
  cases hfound : segments.find? (·.rows = s.rows) with
  | none => exact absurd (decide_eq_true rfl) (List.find?_eq_none.1 hfound s hs)
  | some first =>
    have hfirst : first ∈ (firsts segments).filter (·.rows = s.rows) := by
      rw [hfilter, hfound]
      exact List.mem_cons_self
    exact ⟨first, List.mem_of_mem_filter hfirst, rows_of_find? hfound, rfl⟩

/-! ## Inner ones first -/

/-- what stands between two segments with the same rows has these too -/
theorem rows_of_between (hst : s.innerFirst t = true) (htu : t.innerFirst u = true) (hrows : s.rows = u.rows) :
    t.rows = u.rows := by
  rw [innerFirst_iff] at hst htu
  simp only [rows, Prod.mk.injEq] at hrows ⊢
  omega

/-- of two segments with different rows, one that lies in the other stands before it -/
theorem pair_sublist (h : segments.Pairwise fun s t => s.innerFirst t = true) (hs : s ∈ segments) (ht : t ∈ segments)
    (hcontains : t.contains s = true) (hrows : s.rows ≠ t.rows) : [s, t].Sublist segments := by
  obtain ⟨above, below, rfl⟩ := List.append_of_mem hs
  rcases List.mem_append.1 ht with ht | ht
  · have hfirst := (List.pairwise_append.1 h).2.2 t ht s List.mem_cons_self
    exact absurd ((contains_iff_rows hfirst).1 hcontains).symm hrows
  · have hbelow : t ∈ below := (List.mem_cons.1 ht).resolve_left fun heq => hrows (by rw [heq])
    have hpair : [s, t].Sublist (s :: below) := (List.singleton_sublist.2 hbelow).cons_cons s
    exact hpair.trans (List.sublist_append_right above (s :: below))

end Segment

/-! ## Leaving out segments -/

namespace Layout

open Segment

variable {front segments : List Segment} {s t : Segment}

theorem skipContained_sublist (last : Option Segment) (segments : List Segment) :
    (skipContained last segments).Sublist segments := by
  induction segments generalizing last with
  | nil => exact .refl _
  | cons s rest ih =>
    rw [skipContained]
    split_ifs
    · exact (ih last).cons s
    · exact (ih (some s)).cons_cons s

/-- a segment behind others is compared with the last of these that was kept -/
theorem skipContained_concat (last : Option Segment) (front : List Segment) (s : Segment) :
    skipContained last (front ++ [s]) = skipContained last front ++
      if ((skipContained last front).getLast?.or last).any (·.contains s) then [] else [s] := by
  induction front generalizing last with
  | nil => rfl
  | cons t front ih =>
    rw [List.cons_append, skipContained, skipContained]
    by_cases hin : last.any (·.contains t) = true
    · rw [if_pos hin, if_pos hin]
      exact ih last
    · have hlast : (t :: skipContained (some t) front).getLast?.or last =
          (skipContained (some t) front).getLast?.or (some t) := by
        rw [List.getLast?_cons]
        cases (skipContained (some t) front).getLast? <;> rfl
      rw [if_neg hin, if_neg hin, ih, hlast, List.cons_append]

theorem mem_of_lastDrawn (h : (skipContained none front).getLast? = some s) : s ∈ front :=
  (skipContained_sublist none front).subset (List.mem_of_getLast? h)

/-- the last segment drawn has the rows of the last one passed -/
theorem rows_lastDrawn (h : front.Pairwise fun s t => s.innerFirst t = true) :
    (skipContained none front).getLast?.map rows = front.getLast?.map rows := by
  rcases List.eq_nil_or_concat front with rfl | ⟨front, s, rfl⟩
  · rfl
  · rw [List.concat_eq_append] at h ⊢
    rw [skipContained_concat, Option.or_none, List.getLast?_concat]
    split_ifs with hin
    · obtain ⟨kept, hkept, hcontains⟩ := (Option.any_eq_true _ _).1 hin
      have hfirst := (List.pairwise_append.1 h).2.2 kept (mem_of_lastDrawn hkept) s List.mem_cons_self
      rw [List.append_nil, hkept, Option.map_some, Option.map_some, (contains_iff_rows hfirst).1 hcontains]
    · rw [List.getLast?_concat]

/-- **A segment is left out exactly if one with its rows was passed**, although it is compared with the last one drawn
alone. -/
theorem leftOut_iff (h : (front ++ [s]).Pairwise fun s t => s.innerFirst t = true) :
    (skipContained none front).getLast?.any (·.contains s) = true ↔ ∃ t ∈ front, t.rows = s.rows := by
  obtain ⟨hsorted, -, hbefore⟩ := List.pairwise_append.1 h
  have hfirst : ∀ t ∈ front, t.innerFirst s = true := fun t ht => hbefore t ht s List.mem_cons_self
  rw [Option.any_eq_true]
  constructor
  · rintro ⟨kept, hkept, hcontains⟩
    have hmem := mem_of_lastDrawn hkept
    exact ⟨kept, hmem, (contains_iff_rows (hfirst kept hmem)).1 hcontains⟩
  · rintro ⟨t, ht, hrows⟩
    -- the last one passed is that one, or stands between it and the segment
    obtain ⟨above, u, rfl⟩ : ∃ above u, front = above ++ [u] :=
      ⟨_, _, (List.dropLast_append_getLast (List.ne_nil_of_mem ht)).symm⟩
    have hlast : u.rows = s.rows := by
      rcases List.mem_append.1 ht with habove | hu
      · have htu := (List.pairwise_append.1 hsorted).2.2 t habove u List.mem_cons_self
        exact rows_of_between htu (hfirst u List.mem_concat_self) hrows
      · rwa [List.mem_singleton.1 hu] at hrows
    have hdrawn := rows_lastDrawn hsorted
    rw [List.getLast?_concat, Option.map_some, hlast] at hdrawn
    obtain ⟨kept, hkept, hsame⟩ := Option.map_eq_some_iff.1 hdrawn
    exact ⟨kept, hkept, (contains_iff_rows (hfirst kept (mem_of_lastDrawn hkept))).2 hsame⟩

/-- what is kept of segments with inner ones first -/
theorem skipContained_eq_firsts (h : segments.Pairwise fun s t => s.innerFirst t = true) :
    skipContained none segments = firsts segments := by
  induction segments using List.reverseRecOn with
  | nil => rfl
  | append_singleton front s ih =>
    have hfront := ih (List.pairwise_append.1 h).1
    rw [skipContained_concat, firsts_concat, ← hfront, Option.or_none]
    simp only [leftOut_iff h]

/-! ## Layouts -/

theorem segmentAt?_eq_none {layout : Layout} {row : Nat} :
    layout.segmentAt? row = none ↔ ∀ s ∈ layout.segments, s.start.row ≠ row := by
  simp [segmentAt?]

/-- with inner segments first, the one found at a row ends no later than the others that begin there -/
theorem stop_segmentAt? {layout : Layout} (h : layout.segments.Pairwise fun s t => s.innerFirst t = true) {row : Nat}
    (hfound : layout.segmentAt? row = some s) (ht : t ∈ layout.segments) (hrow : t.start.row = row) :
    s.stop.row ≤ t.stop.row := by
  obtain ⟨hs, above, below, hsplit, habove⟩ := List.find?_eq_some_iff_append.1 hfound
  rw [hsplit] at h ht
  rcases List.mem_append.1 ht with ht | ht
  · exact absurd (habove t ht) (by simp [hrow])
  · rcases List.mem_cons.1 ht with rfl | ht
    · exact Nat.le_refl _
    · have hfirst := (List.pairwise_cons.1 (List.pairwise_append.1 h).2.1).1 t ht
      rw [innerFirst_iff] at hfirst
      rw [beq_iff_eq] at hs
      omega

/-- **What is drawn loses nothing, and the segment found at a row is the innermost.** For every list of lines: drawn are the
segments with rows that none before them has, in their order. So of the segments with the same rows exactly the first is
drawn. In particular, if of two segments with different rows one lies in the other, neither is left out for that: the first
ones with their rows are both drawn, the inner one before the outer one. The segment found at a row begins there and ends
no later than any other that does, and none is found exactly if none begins there. -/
theorem drawable_firsts (lines : List FoldLine) :
    (build lines).drawable = firsts (build lines).segments ∧
    (∀ p, (build lines).drawable.filter (·.rows = p) = ((build lines).segments.find? (·.rows = p)).toList) ∧
    (∀ s ∈ (build lines).segments, ∀ t ∈ (build lines).segments, t.contains s = true → s.rows ≠ t.rows →
      ∃ inner outer, (build lines).segments.find? (·.rows = s.rows) = some inner ∧
        (build lines).segments.find? (·.rows = t.rows) = some outer ∧ [inner, outer].Sublist (build lines).drawable) ∧
    (∀ row s, (build lines).segmentAt? row = some s → s ∈ (build lines).segments ∧ s.start.row = row ∧
      ∀ t ∈ (build lines).segments, t.start.row = row → s.stop.row ≤ t.stop.row) ∧
    ∀ row, (build lines).segmentAt? row = none ↔ ∀ s ∈ (build lines).segments, s.start.row ≠ row := by
  have hsorted : (build lines).segments.Pairwise fun s t => s.innerFirst t = true := sort_sorted _
  have hdrawn : (build lines).drawable = firsts (build lines).segments := skipContained_eq_firsts hsorted
  refine ⟨hdrawn, fun p => hdrawn ▸ filter_firsts _ p, ?_, ?_, fun row => segmentAt?_eq_none⟩
  · intro s hs t ht hcontains hrows
    obtain ⟨inner, hinner, hsame, hfound⟩ := exists_first hs
    obtain ⟨outer, houter, hsame', hfound'⟩ := exists_first ht
    have hlies : outer.contains inner = true := by
      obtain ⟨hstart, hstop⟩ := Prod.mk.inj hsame
      obtain ⟨hstart', hstop'⟩ := Prod.mk.inj hsame'
      rw [contains, hstart, hstop, hstart', hstop']
      exact hcontains
    have hsub : (firsts (build lines).segments).Sublist (build lines).segments := hdrawn ▸ skipContained_sublist none _
    refine ⟨inner, outer, hfound, hfound', ?_⟩
    rw [hdrawn]
    exact pair_sublist (hsorted.sublist hsub) hinner houter hlies (hsame ▸ hsame' ▸ hrows)
  · intro row s hfound
    have hrow := List.find?_some hfound
    exact ⟨List.mem_of_find?_eq_some hfound, beq_iff_eq.1 hrow, fun t ht => stop_segmentAt? hsorted hfound ht⟩

/-- the first line opens three blocks and the second one more; the third line closes two of them, and the other two run to
it as well. Of the three segments with the same rows the one that was closed is drawn, and so is the one inside it -/
theorem drawable_firsts_closed :
    let line (id opened closed : Nat) : FoldLine := ⟨⟨id⟩, 0, 1, ⟨⟨opened, closed⟩, {}⟩, false, false, 0⟩
    let layout := build [line 0 3 0, line 1 1 0, line 2 1 2]
    let stop : Marker := ⟨⟨2⟩, 2, 2, 1, true⟩
    let outer : Segment := ⟨⟨⟨0⟩, 0, 0, 0, true⟩, stop, .beginOnly⟩
    let inner : Segment := ⟨⟨⟨1⟩, 1, 1, 0, true⟩, stop, .beginOnly⟩
    layout.segments.map rows = [(2, 2), (1, 2), (0, 2), (0, 2), (0, 2)] ∧
      layout.drawable.filter (·.rows = (0, 2)) = [outer] ∧ [inner, outer].Sublist layout.drawable ∧
      layout.segmentAt? 3 = none := by
  intro line layout stop outer inner
  obtain ⟨-, hfirst, hnested, -, hnone⟩ := drawable_firsts [line 0 3 0, line 1 1 0, line 2 1 2]
  have houter : layout.segments.find? (·.rows = (0, 2)) = some outer := by decide
  have hinner : layout.segments.find? (·.rows = (1, 2)) = some inner := by decide
  obtain ⟨first, last, hin, hout, hpair⟩ := hnested inner (by decide) outer (by decide) (by decide) (by decide)
  obtain rfl : inner = first := Option.some.inj (hinner.symm.trans hin)
  obtain rfl : outer = last := Option.some.inj (houter.symm.trans hout)
  refine ⟨by decide, ?_, hpair, (hnone 3).2 (by decide)⟩
  calc layout.drawable.filter (·.rows = (0, 2))
      _ = (layout.segments.find? (·.rows = (0, 2))).toList := hfirst (0, 2)
      _ = [outer] := by rw [houter]; rfl

end Layout

end Linewise
