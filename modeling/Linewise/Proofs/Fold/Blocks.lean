/-
What a stretch of lines does to the blocks that are open above it.

A run over some lines leaves blocks of its own on top of what it left of the blocks that were open before (`Over`). A
stretch of lines of one context does to them what a single line does that opens and closes as much as all of them
together (`run_uniform`); that is why one line may stand for many. Where the contexts differ, it may not. What can be
told apart below is how many blocks are left open and, unless nothing follows, how many were closed
(`through_eq_iff`).
-/
import Mathlib.Data.List.Induction
import Mathlib.Tactic.Abel
import Linewise.Proofs.Balance.Pair
import Linewise.Proofs.Fold.Sweep

namespace Linewise

section Reach

variable {α : Type} {ignored : Bool}

theorem reach_le_length (ignored : Bool) (stack : List (α × Bool)) : reach ignored stack ≤ stack.length :=
  (List.takeWhile_prefix _).length_le

theorem reach_replicate_append (count : Nat) (label : α) (stack : List (α × Bool)) :
    reach ignored (List.replicate count (label, ignored) ++ stack) = count + reach ignored stack := by
  induction count with
  | zero => simp
  | succ count ih =>
    rw [List.replicate_succ, List.cons_append, reach_cons, if_pos rfl, ih]
    omega

theorem reach_drop {count : Nat} {stack : List (α × Bool)} (h : count ≤ reach ignored stack) :
    reach ignored (stack.drop count) = reach ignored stack - count := by
  induction count generalizing stack with
  | zero => rfl
  | succ count ih =>
    cases stack with
    | nil => cases h
    | cons block stack =>
      rw [reach_cons] at h ⊢
      split_ifs at h ⊢ with hb
      · rw [List.drop_succ_cons, ih (by omega)]
        omega
      · cases h

end Reach

/-- where the stretches that come of a line begin: one for each block that it opens, and its own if it is collapsed -/
def Mark.starts {α : Type} (m : Mark α) : Multiset α := Multiset.replicate m.pair.opened m.label + m.alone.map Prod.fst

namespace Sweep

variable {α : Type}

theorem closes_le_length (stack : List (α × Bool)) (m : Mark α) : closes stack m ≤ stack.length :=
  (Nat.min_le_right _ _).trans (reach_le_length _ _)

/-! ## Blocks of a stretch, and blocks above it -/

/-- a sweep over a stretch of lines that began with the open blocks `base`: it closed `count` of these, and left `opened`
on top of the others; of the stretches it closed, the inner ones lie within the lines, the outer ones began above -/
structure Over (base : List (α × Bool)) (marks : List (Mark α)) (opened : List (α × Bool)) (count : Nat)
    (inner outer : Multiset (α × α)) (s : Sweep α) : Prop where
  stack : s.stack = opened ++ base.drop count
  count_le : count ≤ base.length
  opened_mem : ∀ block ∈ opened, block.1 ∈ marks.map (·.label)
  closed : s.closed = inner + outer
  inner_mem : ∀ p ∈ inner, p.1 ∈ marks.map (·.label) ∧ p.2 ∈ marks.map (·.label)
  outer_mem : ∀ p ∈ outer, p.2 ∈ marks.map (·.label)
  outer_starts : outer.map (·.1) = ((base.take count).map (·.1) : List α)

theorem Over.step {base opened : List (α × Bool)} {marks : List (Mark α)} {count : Nat} {inner outer : Multiset (α × α)}
    {s : Sweep α} (h : Over base marks opened count inner outer s) (m : Mark α) :
    Over base (marks ++ [m])
      (List.replicate m.pair.opened (m.label, m.ignored) ++ opened.drop (closes s.stack m))
      (count + (closes s.stack m - opened.length))
      (inner + (((opened.take (closes s.stack m)).map fun block => (block.1, m.label) : List _) + m.alone))
      (outer + (((base.drop count).take (closes s.stack m - opened.length)).map fun block => (block.1, m.label) : List _))
      (s.step m) := by
  have hle := closes_le_length s.stack m
  set k := closes s.stack m with hk
  rw [h.stack, List.length_append, List.length_drop] at hle
  have hcount := h.count_le
  have hlabels : ∀ x, x ∈ marks.map (·.label) → x ∈ (marks ++ [m]).map (·.label) := by
    intro x hx
    rw [List.map_append]
    exact List.mem_append_left _ hx
  have hlast : m.label ∈ (marks ++ [m]).map (·.label) := by simp
  refine ⟨?_, by omega, ?_, ?_, ?_, ?_, ?_⟩
  · rw [Sweep.step, ← hk, h.stack, List.drop_append, List.drop_drop, List.append_assoc]
  · intro block hb
    rcases List.mem_append.1 hb with hb | hb
    · rw [List.eq_of_mem_replicate hb]
      exact hlast
    · exact hlabels _ (h.opened_mem block (List.mem_of_mem_drop hb))
  · rw [Sweep.step, ← hk, h.closed, h.stack, List.take_append, List.map_append, ← Multiset.coe_add]
    simp only
    abel
  · intro p hp
    rcases Multiset.mem_add.1 hp with hp | hp
    · exact ⟨hlabels _ (h.inner_mem p hp).1, hlabels _ (h.inner_mem p hp).2⟩
    rcases Multiset.mem_add.1 hp with hp | hp
    · obtain ⟨block, hb, rfl⟩ := List.mem_map.1 (Multiset.mem_coe.1 hp)
      exact ⟨hlabels _ (h.opened_mem block (List.mem_of_mem_take hb)), hlast⟩
    · unfold Mark.alone at hp
      split_ifs at hp
      · rw [Multiset.mem_singleton.1 hp]
        exact ⟨hlast, hlast⟩
      · exact absurd hp (Multiset.notMem_zero _)
  · intro p hp
    rcases Multiset.mem_add.1 hp with hp | hp
    · exact hlabels _ (h.outer_mem p hp)
    · obtain ⟨block, _, rfl⟩ := List.mem_map.1 (Multiset.mem_coe.1 hp)
      exact hlast
  · rw [Multiset.map_add, h.outer_starts, Multiset.map_coe, List.map_map, Multiset.coe_add, List.take_add,
      List.map_append]
    rfl

/-- **Every run over some lines leaves what was open above them as it was, but for the innermost blocks it closed.** -/
theorem run_over (base : List (α × Bool)) (marks : List (Mark α)) :
    ∃ opened count inner outer, Over base marks opened count inner outer (run ⟨base, 0⟩ marks) := by
  induction marks using List.reverseRecOn with
  | nil =>
    refine ⟨[], 0, 0, 0, ⟨by simp, by simp, ?_, by simp, ?_, ?_, by simp⟩⟩
    · exact fun _ hb => absurd hb List.not_mem_nil
    · exact fun _ hp => absurd hp (Multiset.notMem_zero _)
    · exact fun _ hp => absurd hp (Multiset.notMem_zero _)
  | append_singleton marks m ih =>
    obtain ⟨opened, count, inner, outer, h⟩ := ih
    rw [run_append]
    exact ⟨_, _, _, _, h.step m⟩

/-- an outer stretch began with a block that was open -/
theorem Over.outer_start {base opened : List (α × Bool)} {marks : List (Mark α)} {count : Nat}
    {inner outer : Multiset (α × α)} {s : Sweep α} (h : Over base marks opened count inner outer s) {p : α × α}
    (hp : p ∈ outer) : ∃ block ∈ base, block.1 = p.1 := by
  have hstart := Multiset.mem_map_of_mem (·.1) hp
  rw [h.outer_starts, Multiset.mem_coe] at hstart
  obtain ⟨block, hb, heq⟩ := List.mem_map.1 hstart
  exact ⟨block, List.mem_of_mem_take hb, heq⟩

theorem end_of_mem_closed {base : List (α × Bool)} {marks : List (Mark α)} {p : α × α}
    (hp : p ∈ (run ⟨base, 0⟩ marks).closed) : p.2 ∈ marks.map (·.label) := by
  obtain ⟨opened, count, inner, outer, h⟩ := run_over base marks
  rw [h.closed, Multiset.mem_add] at hp
  exact hp.elim (fun hp => (h.inner_mem p hp).2) (h.outer_mem p)

theorem mem_closed {marks : List (Mark α)} {p : α × α} (hp : p ∈ (run {} marks).closed) :
    p.1 ∈ marks.map (·.label) ∧ p.2 ∈ marks.map (·.label) := by
  obtain ⟨opened, count, inner, outer, h⟩ := run_over [] marks
  rw [show (run {} marks).closed = _ from h.closed, Multiset.mem_add] at hp
  rcases hp with hp | hp
  · exact h.inner_mem p hp
  · obtain ⟨block, hb, _⟩ := h.outer_start hp
    cases hb

/-- **What is left open by lines of which the last one closes a block of the first one** and opens none: blocks of the
first line only, on top of those above. -/
theorem run_block {base : List (α × Bool)} {first last : Mark α} {marks : List (Mark α)} {context : Bool}
    (hbase : ∀ block ∈ base, block.1 ∉ (first :: (marks ++ [last])).map (·.label))
    (hfirst : first.label ∉ marks.map (·.label)) (hopened : last.pair.opened = 0)
    (hclosed : (first.label, context) ∈ (run ⟨base, 0⟩ (first :: marks)).stack.take
      (closes (run ⟨base, 0⟩ (first :: marks)).stack last)) :
    ∃ own count inner outer, Over base (first :: (marks ++ [last]))
      (List.replicate own (first.label, first.ignored)) count inner outer
      (run ⟨base, 0⟩ (first :: (marks ++ [last]))) := by
  obtain ⟨opened, count, inner, outer, h⟩ := run_over base (first :: (marks ++ [last]))
  -- the blocks once the first line is passed, and what the lines below it make of them
  set start := (step ⟨base, 0⟩ first).stack with hstart
  have hrun : (run ⟨base, 0⟩ (first :: marks)).stack = (run ⟨start, 0⟩ marks).stack := by
    rw [run_cons, ← (run_closed start (step ⟨base, 0⟩ first).closed marks).1]
  obtain ⟨above, passed, _, _, ho⟩ := run_over start marks
  set k := closes (run ⟨base, 0⟩ (first :: marks)).stack last with hk
  have hstack : (run ⟨base, 0⟩ (first :: marks)).stack = above ++ start.drop passed := hrun.trans ho.stack
  have hlt : above.length < k := by
    rw [hstack, List.take_append] at hclosed
    rcases List.mem_append.1 hclosed with hin | hin
    · exact absurd (ho.opened_mem _ (List.mem_of_mem_take hin)) hfirst
    · by_contra hle
      rw [Nat.sub_eq_zero_of_le (Nat.le_of_not_lt hle), List.take_zero] at hin
      cases hin
  have hend : (run ⟨base, 0⟩ (first :: (marks ++ [last]))).stack = (start.drop passed).drop (k - above.length) := by
    rw [← List.cons_append, run_append, run_cons, run_nil, step, ← hk, hopened, hstack, List.drop_append,
      List.drop_eq_nil_of_le hlt.le]
    rfl
  -- so whatever is open was open once the first line was passed
  have hown : opened = List.replicate opened.length (first.label, first.ignored) := by
    refine List.eq_replicate_iff.2 ⟨rfl, fun block hb => ?_⟩
    have hmem : block ∈ (start.drop passed).drop (k - above.length) := by
      rw [← hend, h.stack]
      exact List.mem_append_left _ hb
    rcases List.mem_append.1 (List.mem_of_mem_drop (List.mem_of_mem_drop hmem)) with hnew | hold
    · exact List.eq_of_mem_replicate hnew
    · exact absurd (h.opened_mem block hb) (hbase block (List.mem_of_mem_drop hold))
  exact ⟨opened.length, count, inner, outer, hown ▸ h⟩

/-! ## Lines of one context -/

/-- the blocks open after a line, or after lines of one context, that open and close so much -/
def afterLine (base : List (α × Bool)) (label : α) (ignored : Bool) (p : Pair) : List (α × Bool) :=
  List.replicate p.opened (label, ignored) ++ base.drop (min p.closed (reach ignored base))

theorem step_afterLine (base : List (α × Bool)) (p : Pair) (closed : Multiset (α × α)) (m : Mark α) :
    (step ⟨afterLine base m.label m.ignored p, closed⟩ m).stack =
      afterLine base m.label m.ignored (p + m.pair) := by
  obtain ⟨label, ⟨opened, ending⟩, ignored, collapsed⟩ := m
  obtain ⟨before, above⟩ := p
  have hreach : reach ignored (afterLine base label ignored ⟨before, above⟩) =
      before + (reach ignored base - min above (reach ignored base)) := by
    rw [afterLine, reach_replicate_append, reach_drop (Nat.min_le_right _ _)]
  simp only [step, closes, hreach, Pair.add_def]
  simp only [afterLine, List.drop_append, List.drop_replicate, List.length_replicate, List.drop_drop]
  rw [← List.append_assoc, ← List.replicate_add]
  congr 2
  · omega
  · omega

/-- **Lines of one context, all under one label, do to the open blocks what one line does** that opens and closes as much
as all of them together. Lines of the other context among them do nothing if they open and close nothing. -/
theorem run_uniform (base : List (α × Bool)) {label : α} {ignored : Bool} {marks : List (Mark α)}
    (hlabel : ∀ m ∈ marks, m.label = label) (hcontext : ∀ m ∈ marks, m.ignored = ignored ∨ m.pair = 0)
    (p : Pair) (closed : Multiset (α × α)) :
    (run ⟨afterLine base label ignored p, closed⟩ marks).stack =
      afterLine base label ignored (p + (marks.map (·.pair)).sum) := by
  induction marks generalizing p closed with
  | nil => rw [run_nil, List.map_nil, List.sum_nil, add_zero]
  | cons m marks ih =>
    rw [List.forall_mem_cons] at hlabel hcontext
    have hstep : (step ⟨afterLine base label ignored p, closed⟩ m).stack = afterLine base label ignored (p + m.pair) := by
      by_cases hi : m.ignored = ignored
      · obtain ⟨rfl, _⟩ := hlabel
        obtain rfl := hi
        exact step_afterLine base p closed m
      · have hzero := hcontext.1.resolve_left hi
        have hopened : m.pair.opened = 0 := by rw [hzero]; rfl
        have hends : m.pair.closed = 0 := by rw [hzero]; rfl
        rw [step, closes, hopened, hends, hzero, add_zero, Nat.zero_min]
        rfl
    rw [run_cons, List.map_cons, List.sum_cons, ← add_assoc,
      ← ih hlabel.2 hcontext.2 (p + m.pair) (step ⟨afterLine base label ignored p, closed⟩ m).closed, ← hstep]

/-! ## What can be told apart below -/

/-- the beginnings are those of the stretches closed, of the open blocks and of what the line adds -/
theorem starts_step (s : Sweep α) (m : Mark α) :
    (s.step m).closed.map Prod.fst + ((s.step m).stack.map Prod.fst : List α) =
      s.closed.map Prod.fst + (s.stack.map Prod.fst : List α) + m.starts := by
  have hsplit : (s.stack.map Prod.fst : Multiset α) =
      ((s.stack.take (closes s.stack m)).map Prod.fst : List α) + ((s.stack.drop (closes s.stack m)).map Prod.fst : List α) := by
    rw [Multiset.coe_add, ← List.map_append, List.take_append_drop]
  simp only [step, Multiset.map_add, Multiset.map_coe, List.map_map, List.map_append, List.map_replicate, ← Multiset.coe_add,
    Mark.starts, hsplit, Multiset.coe_replicate]
  simp only [Function.comp_def]
  abel

/-- **Every block that is open or opened becomes a stretch**, and so does every collapsed line. -/
theorem starts_stretches (s : Sweep α) (marks : List (Mark α)) (last : α) :
    ((s.run marks).stretches last).map Prod.fst =
      s.closed.map Prod.fst + (s.stack.map Prod.fst : List α) + (marks.map Mark.starts).sum := by
  induction marks generalizing s with
  | nil => simp [stretches, Function.comp_def]
  | cons m marks ih => rw [run_cons, ih, starts_step, List.map_cons, List.sum_cons, add_assoc]

theorem card_stretches (s : Sweep α) (marks : List (Mark α)) (last : α) :
    ((s.run marks).stretches last).card =
      s.closed.card + s.stack.length + (marks.map fun m => m.pair.opened + m.alone.card).sum := by
  have hcard := congrArg Multiset.card (starts_stretches s marks last)
  have hsum : (marks.map Mark.starts).sum.card = (marks.map fun m => m.pair.opened + m.alone.card).sum := by
    rw [← Multiset.cardHom_apply, map_list_sum, List.map_map]
    simp [Function.comp_def, Mark.starts]
  rw [Multiset.card_map, Multiset.card_add, Multiset.card_add, Multiset.card_map, hsum] at hcard
  simpa using hcard

/-- a stretch ends at one of the lines passed, or at the last one -/
theorem end_of_mem_stretches {base : List (α × Bool)} {marks : List (Mark α)} {last : α} {p : α × α}
    (hp : p ∈ (run ⟨base, 0⟩ marks).stretches last) : p.2 ∈ marks.map (·.label) ∨ p.2 = last := by
  rw [stretches, Multiset.mem_add] at hp
  rcases hp with hp | hp
  · exact .inl (end_of_mem_closed hp)
  · obtain ⟨block, _, rfl⟩ := List.mem_map.1 (Multiset.mem_coe.1 hp)
    exact .inr rfl

section Apart

variable {base : List (α × Bool)} {label last : α} {ignored : Bool} {marks : List (Mark α)}

/-- the stretches to which a line contributes that closes `count` of the open blocks and leaves `own` of its own open -/
def through (base : List (α × Bool)) (label : α) (ignored : Bool) (marks : List (Mark α)) (last : α) (own count : Nat) :
    Multiset (α × α) :=
  ((base.take count).map fun block => (block.1, label) : List _) +
    (run ⟨List.replicate own (label, ignored) ++ base.drop count, 0⟩ marks).stretches last

theorem card_through (own : Nat) {count : Nat} (hcount : count ≤ base.length) :
    (through base label ignored marks last own count).card =
      base.length + own + (marks.map fun m => m.pair.opened + m.alone.card).sum := by
  simp only [through, Multiset.card_add, card_stretches, Multiset.card_zero, Multiset.coe_card, List.length_map,
    List.length_take, List.length_append, List.length_replicate, List.length_drop]
  omega

variable [DecidableEq α]

/-- the stretches that end at the line are those of the blocks it closes -/
theorem countP_through (hmarks : ∀ m ∈ marks, m.label ≠ label) (hlast : last ≠ label) (own : Nat) {count : Nat}
    (hcount : count ≤ base.length) :
    (through base label ignored marks last own count).countP (·.2 = label) = count := by
  have hbelow : ((run ⟨List.replicate own (label, ignored) ++ base.drop count, 0⟩ marks).stretches last).countP
      (·.2 = label) = 0 := by
    rw [Multiset.countP_eq_zero]
    intro p hp heq
    rcases end_of_mem_stretches hp with hm | hl
    · obtain ⟨m, hm, hlabel⟩ := List.mem_map.1 hm
      exact hmarks m hm (hlabel.trans heq)
    · exact hlast (hl.symm.trans heq)
  rw [through, Multiset.countP_add, hbelow, Multiset.coe_countP, List.countP_map, List.countP_eq_length.2 (by simp),
    List.length_take, Nat.min_eq_left hcount]
  rfl

/-- the blocks of the line are told from the others by their label -/
theorem countP_own (hbase : ∀ block ∈ base, block.1 ≠ label) (own count : Nat) :
    (List.replicate own (label, ignored) ++ base.drop count).countP (·.1 = label) = own := by
  have hrest : (base.drop count).countP (·.1 = label) = 0 := by
    rw [List.countP_eq_zero]
    intro block hb
    simpa using hbase block (List.mem_of_mem_drop hb)
  rw [List.countP_append, hrest, List.countP_replicate]
  simp

/-- **What can be told from the stretches below a line**: how many blocks it leaves open, and how many it closes, unless
nothing follows. -/
theorem through_eq_iff (hbase : ∀ block ∈ base, block.1 ≠ label) (hmarks : ∀ m ∈ marks, m.label ≠ label)
    (hnil : marks = [] → last = label) (hcons : marks ≠ [] → last ≠ label) {own own' count count' : Nat}
    (hcount : count ≤ base.length) (hcount' : count' ≤ base.length) :
    through base label ignored marks last own count = through base label ignored marks last own' count' ↔
      List.replicate own (label, ignored) ++ base.drop count = List.replicate own' (label, ignored) ++ base.drop count' ∨
        marks = [] ∧ own = own' := by
  refine ⟨fun heq => ?_, ?_⟩
  · have hcard := congrArg Multiset.card heq
    rw [card_through own hcount, card_through own' hcount'] at hcard
    obtain rfl : own = own' := by omega
    by_cases hm : marks = []
    · exact .inr ⟨hm, rfl⟩
    · have hends := congrArg (Multiset.countP (·.2 = label)) heq
      rw [countP_through hmarks (hcons hm) own hcount, countP_through hmarks (hcons hm) own hcount'] at hends
      exact .inl (by rw [hends])
  · rintro (heq | ⟨rfl, rfl⟩)
    · obtain rfl : own = own' := by rw [← countP_own hbase own count, heq, countP_own hbase]
      have hlen := congrArg List.length (List.append_cancel_left heq)
      rw [List.length_drop, List.length_drop] at hlen
      obtain rfl : count = count' := by omega
      rfl
    · rw [hnil rfl]
      have hall : ∀ k, through base label ignored [] label own k =
          (base.map fun block => (block.1, label) : List _) + (List.replicate own (label, label) : List _) := by
        intro k
        rw [through, run_nil, stretches, zero_add]
        conv_rhs => rw [← List.take_append_drop k base]
        simp only [List.map_append, List.map_replicate, ← Multiset.coe_add]
        abel
      rw [hall, hall]

end Apart

end Sweep

end Linewise
