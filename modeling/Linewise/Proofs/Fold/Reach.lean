/-
How far down the lines reach once all blocks are folded.

A line reaches as far as the segments that begin on it hide lines, the furthest of them (`fullReach`), but for those that are
left out: the pass skips a segment that lies in the one folded just before. In a plan that one can only have the same rows,
so what is left out is a segment that runs to the last line of the document, when one with the same rows, which ends on the
token that closes it and leaves out that line for the block opened there, was folded before (`Segment.LeftOut`).

The pass is followed here without a document. `Passed` is what it knows when some segments are done and others are not;
whether the next one is skipped, finds nothing to hide or is folded, is then read off how far its line reaches by then
(`Passed.skip`, `Passed.idle`, `Passed.fold`). Main statement about the whole: `Plan.fullReach_nested`, no line reaches past the
reach of one that hides it.
-/
import Linewise.Proofs.Fold.Eligible

namespace Linewise

variable {count : Nat} {todo done rest part : List Segment} {s t p : Segment} {last : Option Segment}

namespace Segment

/-- the segment hides a line that those which begin on the same line and end above it do not -/
def Adds (todo : List Segment) (s : Segment) : Prop :=
  s.start.row < s.hideable ∧
    ∀ u ∈ todo, u.start.row = s.start.row → u.stop.row < s.stop.row → u.hideable < s.hideable

/-- the segment is left out: another with the same rows was folded, but for their last line -/
def LeftOut (todo : List Segment) (t : Segment) : Prop :=
  t.has .beginOnly = false ∧ ∃ s ∈ todo, s.has .beginOnly = true ∧ s.rows = t.rows ∧ s.Adds todo

instance (todo : List Segment) (s : Segment) : Decidable (s.Adds todo) :=
  inferInstanceAs (Decidable (_ ∧ ∀ u ∈ todo, _ → _ → _))

instance (todo : List Segment) (t : Segment) : Decidable (t.LeftOut todo) :=
  inferInstanceAs (Decidable (_ ∧ ∃ s ∈ todo, _))

end Segment

/-- the furthest row that a segment beginning at `row` hides, if any does -/
def furthest (segments : List Segment) (row : Nat) : Nat :=
  ((segments.filter (·.start.row = row)).map Segment.hideable).foldl max row

/-- the row down to which the line at `row` hides lines, by those of the segments `part` that are not left out -/
def reachIn (todo part : List Segment) : Nat → Nat := furthest (part.filter fun s => ¬ s.LeftOut todo)

/-- the row down to which the line at `row` hides lines -/
def fullReach (todo : List Segment) : Nat → Nat := reachIn todo todo

/-! ## The furthest of some segments -/

theorem furthest_append (part : List Segment) (s : Segment) :
    furthest (part ++ [s]) = Function.update (furthest part) s.start.row (max (furthest part s.start.row) s.hideable) := by
  funext row
  rw [furthest, List.filter_append, List.map_append, List.foldl_append]
  by_cases hrow : s.start.row = row
  · obtain rfl := hrow
    simp [furthest]
  · rw [Function.update_of_ne (Ne.symm hrow)]
    simp [hrow, furthest]

theorem reachIn_append_of_leftOut (h : s.LeftOut todo) : reachIn todo (part ++ [s]) = reachIn todo part := by
  simp [reachIn, List.filter_append, h]

theorem reachIn_append (h : ¬ s.LeftOut todo) : reachIn todo (part ++ [s]) =
    Function.update (reachIn todo part) s.start.row (max (reachIn todo part s.start.row) s.hideable) := by
  have hkept : (part ++ [s]).filter (fun s => ¬ s.LeftOut todo) = part.filter (fun s => ¬ s.LeftOut todo) ++ [s] := by
    simp [List.filter_append, h]
  rw [reachIn, hkept, furthest_append, reachIn]

theorem le_reachIn (todo part : List Segment) (row : Nat) : row ≤ reachIn todo part row := by
  induction part using List.reverseRecOn with
  | nil => exact Nat.le_refl _
  | append_singleton part s ih =>
    by_cases h : s.LeftOut todo
    · rwa [reachIn_append_of_leftOut h]
    · rw [reachIn_append h, Function.update_apply]
      split_ifs with hrow
      · rw [hrow] at ih
        omega
      · exact ih

/-- a segment more makes no line reach less far -/
theorem reachIn_mono (todo part : List Segment) (s : Segment) (row : Nat) :
    reachIn todo part row ≤ reachIn todo (part ++ [s]) row := by
  by_cases h : s.LeftOut todo
  · rw [reachIn_append_of_leftOut h]
  · rw [reachIn_append h, Function.update_apply]
    split_ifs with hrow
    · rw [hrow]
      exact Nat.le_max_left _ _
    · exact Nat.le_refl _

theorem reachIn_le_append (todo part more : List Segment) (row : Nat) :
    reachIn todo part row ≤ reachIn todo (part ++ more) row := by
  induction more using List.reverseRecOn with
  | nil => rw [List.append_nil]
  | append_singleton more s ih =>
    rw [← List.append_assoc]
    exact ih.trans (reachIn_mono todo (part ++ more) s row)

/-- a line reaches as far as each of its segments that are not left out -/
theorem hideable_le_reachIn (hs : s ∈ part) (h : ¬ s.LeftOut todo) : s.hideable ≤ reachIn todo part s.start.row := by
  obtain ⟨front, more, rfl⟩ := List.append_of_mem hs
  calc s.hideable
      _ ≤ reachIn todo (front ++ [s]) s.start.row := by
        rw [reachIn_append h, Function.update_self]
        exact Nat.le_max_right _ _
      _ ≤ reachIn todo ((front ++ [s]) ++ more) s.start.row := reachIn_le_append todo (front ++ [s]) more s.start.row
      _ = reachIn todo (front ++ s :: more) s.start.row := by rw [List.append_assoc, List.singleton_append]

/-- and not further -/
theorem reachIn_cases (todo part : List Segment) (row : Nat) :
    reachIn todo part row = row ∨ ∃ s ∈ part, s.start.row = row ∧ reachIn todo part row = s.hideable := by
  induction part using List.reverseRecOn with
  | nil => exact .inl rfl
  | append_singleton part s ih =>
    have hold : reachIn todo part row = row ∨
        ∃ t ∈ part ++ [s], t.start.row = row ∧ reachIn todo part row = t.hideable :=
      ih.imp_right fun ⟨t, ht, hrow⟩ => ⟨t, List.mem_append_left _ ht, hrow⟩
    by_cases h : s.LeftOut todo
    · rwa [reachIn_append_of_leftOut h]
    · rw [reachIn_append h, Function.update_apply]
      split_ifs with hrow
      · rw [← hrow]
        rcases Nat.le_total s.hideable (reachIn todo part row) with hle | hle
        · rwa [Nat.max_eq_left hle]
        · rw [Nat.max_eq_right hle]
          exact .inr ⟨s, by simp, hrow.symm, rfl⟩
      · exact hold

/-- a line reaches nothing exactly if none of its segments does: one that is left out is so for another that hides lines -/
theorem fullReach_eq_iff {row : Nat} :
    fullReach todo row = row ↔ ∀ s ∈ todo, s.start.row = row → s.hideable ≤ row := by
  constructor
  · rintro hsame s hs rfl
    by_cases hout : s.LeftOut todo
    · obtain ⟨-, t, ht, hb, hrows, hlt, -⟩ := hout
      obtain ⟨hstart, -⟩ := Prod.mk.inj hrows
      have hkept : ¬ t.LeftOut todo := fun ⟨hplain, _⟩ => by simp [hb] at hplain
      have hle := hideable_le_reachIn ht hkept
      rw [hstart, show reachIn todo todo s.start.row = s.start.row from hsame] at hle
      omega
    · exact hsame ▸ hideable_le_reachIn hs hout
  · intro hnone
    rcases reachIn_cases todo todo row with hsame | ⟨s, hs, hstart, hreach⟩
    · exact hsame
    · refine Nat.le_antisymm ?_ (le_reachIn todo todo row)
      rw [fullReach, hreach]
      exact hnone s hs hstart

namespace Plan

/-- **No line reaches past the reach of one that hides it.** -/
theorem reachIn_nested (h : Plan count todo) (hpart : ∀ s ∈ part, s ∈ todo) {b c : Nat} (hlt : b < c)
    (hle : c ≤ reachIn todo part b) : reachIn todo part c ≤ reachIn todo part b := by
  rcases reachIn_cases todo part b with hb | ⟨s, hs, rfl, hb⟩
  · omega
  · rcases reachIn_cases todo part c with hc | ⟨t, ht, rfl, hc⟩
    · rwa [hc]
    · rw [hb] at hle ⊢
      rw [hc]
      exact h.nested s (hpart s hs) t (hpart t ht) hlt hle

theorem fullReach_nested (h : Plan count todo) (b c : Nat) (hlt : b < c) (hle : c ≤ fullReach todo b) :
    fullReach todo c ≤ fullReach todo b :=
  h.reachIn_nested (fun _ hs => hs) hlt hle

/-- a segment before another one begins below it, or on the same line and ends no lower -/
theorem before (h : Plan count (done ++ t :: rest)) (hs : s ∈ done) :
    t.start.row < s.start.row ∨ s.start.row = t.start.row ∧ s.stop.row ≤ t.stop.row :=
  Segment.innerFirst_iff.1 ((List.pairwise_append.1 h.sorted).2.2 s hs t List.mem_cons_self)

theorem after (h : Plan count (done ++ t :: rest)) (hs : s ∈ rest) :
    s.start.row < t.start.row ∨ t.start.row = s.start.row ∧ t.stop.row ≤ s.stop.row :=
  Segment.innerFirst_iff.1 (List.rel_of_pairwise_cons (List.pairwise_append.1 h.sorted).2.1 hs)

/-- of two segments with the same rows the earlier one leaves out its last line if the later one does -/
theorem twin_before (h : Plan count (done ++ t :: rest)) (hs : s ∈ done) (hrows : s.rows = t.rows)
    (hb : t.has .beginOnly = true) : s.has .beginOnly = true :=
  (List.pairwise_append.1 h.twins).2.2 s hs t List.mem_cons_self hrows hb

theorem twin_after (h : Plan count (done ++ t :: rest)) (hs : s ∈ rest) (hrows : t.rows = s.rows)
    (hb : s.has .beginOnly = true) : t.has .beginOnly = true :=
  List.rel_of_pairwise_cons (List.pairwise_append.1 h.twins).2.1 hs hrows hb

/-- in a plan a segment lies in one before it exactly if their rows are the same -/
theorem contains_iff_rows (h : Plan count (done ++ t :: rest)) (hp : p ∈ done) : p.contains t = true ↔ p.rows = t.rows :=
  Segment.contains_iff_rows ((List.pairwise_append.1 h.sorted).2.2 p hp t List.mem_cons_self)

/-- rows above that of the next segment reach no further than themselves so far -/
theorem reachIn_above (h : Plan count (done ++ t :: rest)) (todo : List Segment) {c : Nat} (hc : c < t.start.row) :
    reachIn todo done c = c := by
  rcases reachIn_cases todo done c with hsame | ⟨s, hs, rfl, -⟩
  · exact hsame
  · have hfirst := h.before hs
    omega

/-- a segment that begins on the line of the next one and ends above that is done, and not left out -/
theorem done_of_shorter (h : Plan count (done ++ t :: rest)) (hs : s ∈ done ++ t :: rest) (hstart : s.start.row = t.start.row)
    (hstop : s.stop.row < t.stop.row) : s ∈ done ∧ ¬ s.LeftOut (done ++ t :: rest) := by
  have hlast := (h.proper t (by simp)).2
  refine ⟨?_, fun ⟨hplain, u, hu, hb, hrows, _⟩ => ?_⟩
  · rcases List.mem_append.1 hs with hs | hs
    · exact hs
    · rcases List.mem_cons.1 hs with rfl | hs
      · omega
      · have hfirst := h.after hs
        omega
  · have hend := h.last u hu s hs hrows hb hplain
    omega

end Plan

/-! ## The pass -/

/-- some segments of a plan are done, and `last` is the last one of them that was folded -/
structure Passed (count : Nat) (todo done rest : List Segment) (last : Option Segment) : Prop where
  plan : Plan count todo
  split : todo = done ++ rest
  folded : ∀ p, last = some p → p ∈ done ∧ p.Adds todo ∧ p.hideable ≤ reachIn todo done p.start.row
  recent : ∀ s ∈ done, s.Adds todo → ∀ t ∈ rest, t.rows = s.rows → ∃ p, last = some p ∧ p.rows = s.rows

namespace Passed

theorem start (h : Plan count todo) : Passed count todo [] todo none :=
  ⟨h, rfl, fun _ hp => (Option.some_ne_none _ hp.symm).elim, fun _ hs => absurd hs List.not_mem_nil⟩

section Next

variable (h : Passed count todo done (t :: rest) last)
include h

theorem split_plan : Plan count (done ++ t :: rest) := h.split ▸ h.plan

theorem next_mem : t ∈ todo := by
  rw [h.split]
  simp

theorem done_mem {s : Segment} (hs : s ∈ done) : s ∈ todo := by
  rw [h.split]
  exact List.mem_append_left _ hs

/-- the segment folded last is the only one that the next one can lie in, and then both have the same rows -/
theorem contains_iff : last.any (·.contains t) = true ↔ ∃ p, last = some p ∧ p.rows = t.rows := by
  rw [Option.any_eq_true]
  constructor
  · rintro ⟨p, hp, hc⟩
    exact ⟨p, hp, (h.split_plan.contains_iff_rows (h.folded p hp).1).1 hc⟩
  · rintro ⟨p, hp, hrows⟩
    exact ⟨p, hp, (h.split_plan.contains_iff_rows (h.folded p hp).1).2 hrows⟩

/-- a segment that adds lines and has the rows of the next one, is the reason to skip that one -/
theorem not_adds (hc : ¬ last.any (·.contains t) = true) (hs : s ∈ done) (hrows : s.rows = t.rows) : ¬ s.Adds todo := by
  intro hadds
  obtain ⟨p, hp, hrows'⟩ := h.recent s hs hadds t List.mem_cons_self hrows.symm
  exact hc (h.contains_iff.2 ⟨p, hp, hrows'.trans hrows⟩)

/-- one with the rows of the next one that leaves out its last line comes before it, if that one does not leave it out -/
theorem twin_done (hs : s ∈ todo) (hb : s.has .beginOnly = true) (hplain : t.has .beginOnly = false)
    (hrows : s.rows = t.rows) : s ∈ done := by
  rw [h.split] at hs
  rcases List.mem_append.1 hs with hs | hs
  · exact hs
  · rcases List.mem_cons.1 hs with rfl | hs
    · rw [hb] at hplain
      cases hplain
    · rw [h.split_plan.twin_after hs hrows.symm hb] at hplain
      cases hplain

theorem not_leftOut (hc : ¬ last.any (·.contains t) = true) : ¬ t.LeftOut todo := by
  rintro ⟨hplain, s, hs, hb, hrows, hadds⟩
  exact h.not_adds hc (h.twin_done hs hb hplain hrows) hrows hadds

/-- **What a segment that is not skipped adds** is what its line did not reach before. -/
theorem adds_iff (hc : ¬ last.any (·.contains t) = true) :
    t.Adds todo ↔ reachIn todo done t.start.row < t.hideable := by
  constructor
  · rintro ⟨hlt, hadds⟩
    rcases reachIn_cases todo done t.start.row with hsame | ⟨s, hs, hstart, hreach⟩
    · rwa [hsame]
    rw [hreach]
    have hst := h.split_plan.before hs
    rcases Nat.lt_or_ge s.stop.row t.stop.row with hstop | hstop
    · exact hadds s (h.done_mem hs) hstart hstop
    · -- one with the same rows did not add what this one does, so it hides less
      have hrows : s.rows = t.rows := Prod.ext hstart (by change s.stop.row = t.stop.row; omega)
      obtain ⟨-, hsame⟩ := Prod.mk.inj hrows
      have hne : s.hideable ≠ t.hideable := by
        intro heq
        refine h.not_adds hc hs hrows ⟨by omega, fun u hu hu' hstop => ?_⟩
        rw [heq]
        exact hadds u hu (hu'.trans hstart) (by omega)
      have hb := h.split_plan.twin_before hs hrows
      unfold Segment.hideable at hne ⊢
      split_ifs at hne ⊢ with h1 h2 h2
      · omega
      · have hproper := h.plan.proper t h.next_mem
        omega
      · exact absurd (hb h2) h1
      · omega
  · intro hlt
    have hself := le_reachIn todo done t.start.row
    refine ⟨by omega, fun u hu hstart hstop => ?_⟩
    obtain ⟨hdone, hkept⟩ := h.split_plan.done_of_shorter (h.split ▸ hu) hstart hstop
    have hle := hideable_le_reachIn hdone (h.split ▸ hkept)
    rw [hstart] at hle
    omega

/-- a segment skipped changes nothing -/
theorem skip (hc : last.any (·.contains t) = true) :
    reachIn todo (done ++ [t]) = reachIn todo done ∧ Passed count todo (done ++ [t]) rest last := by
  obtain ⟨p, hp, hrows⟩ := h.contains_iff.1 hc
  obtain ⟨hstart, hstop⟩ := Prod.mk.inj hrows
  obtain ⟨hdone, hadds, hle⟩ := h.folded p hp
  have hreach : reachIn todo (done ++ [t]) = reachIn todo done := by
    by_cases hout : t.LeftOut todo
    · exact reachIn_append_of_leftOut hout
    · have hhides : t.hideable ≤ p.hideable := by
        unfold Segment.hideable
        split_ifs with h1 h2 h2
        · omega
        · omega
        · exact absurd ⟨Bool.eq_false_iff.2 h1, p, h.done_mem hdone, h2, hrows, hadds⟩ hout
        · omega
      rw [hstart] at hle
      rw [reachIn_append hout, Nat.max_eq_left (hhides.trans hle), Function.update_eq_self]
  refine ⟨hreach, h.plan, by rw [h.split]; simp, ?_, ?_⟩
  · intro q hq
    rw [hreach]
    exact (h.folded q hq).imp_left (List.mem_append_left _)
  · intro s hs hadds' u hu hrows'
    rcases List.mem_append.1 hs with hs | hs
    · exact h.recent s hs hadds' u (List.mem_cons_of_mem _ hu) hrows'
    · rw [List.mem_singleton.1 hs]
      exact ⟨p, hp, hrows⟩

/-- a segment that has nothing to hide changes nothing either -/
theorem idle (hc : ¬ last.any (·.contains t) = true) (hle : t.hideable ≤ reachIn todo done t.start.row) :
    reachIn todo (done ++ [t]) = reachIn todo done ∧ Passed count todo (done ++ [t]) rest last := by
  have hreach : reachIn todo (done ++ [t]) = reachIn todo done := by
    rw [reachIn_append (h.not_leftOut hc), Nat.max_eq_left hle, Function.update_eq_self]
  refine ⟨hreach, h.plan, by rw [h.split]; simp, ?_, ?_⟩
  · intro q hq
    rw [hreach]
    exact (h.folded q hq).imp_left (List.mem_append_left _)
  · intro s hs hadds u hu hrows
    rcases List.mem_append.1 hs with hs | hs
    · exact h.recent s hs hadds u (List.mem_cons_of_mem _ hu) hrows
    · rw [List.mem_singleton.1 hs, h.adds_iff hc] at hadds
      omega

/-- a segment folded makes its line reach as far as it hides -/
theorem fold (hc : ¬ last.any (·.contains t) = true) (hlt : reachIn todo done t.start.row < t.hideable) :
    reachIn todo (done ++ [t]) = Function.update (reachIn todo done) t.start.row t.hideable ∧
      Passed count todo (done ++ [t]) rest (some t) := by
  have hreach : reachIn todo (done ++ [t]) = Function.update (reachIn todo done) t.start.row t.hideable := by
    rw [reachIn_append (h.not_leftOut hc), Nat.max_eq_right hlt.le]
  refine ⟨hreach, h.plan, by rw [h.split]; simp, ?_, ?_⟩
  · rintro q ⟨⟩
    exact ⟨by simp, (h.adds_iff hc).2 hlt, by rw [hreach, Function.update_self]⟩
  · -- a segment between two with the same rows has these rows
    intro s hs hadds u hu hrows
    refine ⟨t, rfl, ?_⟩
    rcases List.mem_append.1 hs with hs | hs
    · have hst := h.split_plan.before hs
      have htu := h.split_plan.after hu
      obtain ⟨hstart, hstop⟩ := Prod.mk.inj hrows
      refine Prod.ext ?_ ?_
      · change t.start.row = s.start.row
        omega
      · change t.stop.row = s.stop.row
        omega
    · rw [List.mem_singleton.1 hs]

/-! ### Which lines are visible by now -/

/-- no line down to the reach of the next segment's line reaches further -/
theorem unreached_below {c : Nat} (hc : c ≤ reachIn todo done t.start.row) :
    reachIn todo done c ≤ reachIn todo done t.start.row := by
  rcases Nat.lt_trichotomy c t.start.row with hlt | rfl | hlt
  · rw [h.split_plan.reachIn_above todo hlt]
    exact hc
  · exact Nat.le_refl _
  · exact h.plan.reachIn_nested (fun _ => h.done_mem) hlt hc

/-- no line above the last line of a segment reaches that one, if it opens the next block -/
theorem unreached_last (hb : t.has .beginOnly = true) {c : Nat} (hc : c < t.stop.row) : reachIn todo done c < t.stop.row := by
  rcases Nat.lt_or_ge c t.start.row with habove | hbelow
  · rw [h.split_plan.reachIn_above todo habove]
    exact hc
  rcases reachIn_cases todo done c with hsame | ⟨s, hs, rfl, hreach⟩
  · rwa [hsame]
  rw [hreach]
  have hstop := h.plan.proper t h.next_mem
  rcases Nat.lt_or_eq_of_le hbelow with hlt | hsame
  · have hle := h.plan.nested t h.next_mem s (h.done_mem hs) hlt
    rw [Segment.hideable_of_beginOnly hb] at hle
    have hhides := hle (by omega)
    omega
  · -- one that begins on the same line and came before ends no lower, and if there, then for the next block too
    have hst := h.split_plan.before hs
    rcases Nat.lt_or_ge s.stop.row t.stop.row with hshorter | hsame'
    · have hle := s.hideable_le
      omega
    · have hsb := h.split_plan.twin_before hs (Prod.ext hsame.symm (by change s.stop.row = t.stop.row; omega)) hb
      rw [Segment.hideable_of_beginOnly hsb]
      omega

end Next

end Passed

end Linewise
