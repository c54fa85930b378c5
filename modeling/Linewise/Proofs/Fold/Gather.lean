/-
Rows gathered behind others.

Say of each row how far down it reaches. `nest` puts behind each row the rows below it, as far as it reaches, each with what
is behind it in turn. Rows are really gathered from the bottom, each taking what it reaches of the heaps that stand below it
by then; `gather` does that, and keeps with every heap the number of its first row. If a row within the reach of another
reaches no further than that one, both are the same (`gather_eq_nest`).

What it means to put rows behind a row is left open (`cover`): the laws used are that nothing behind a row leaves it alone,
and that rows may be put behind it in two goes.
-/
import Mathlib.Data.List.Basic
import Mathlib.Data.List.TakeWhile
import Mathlib.Tactic.SplitIfs

namespace Linewise

variable {α β : Type}

/-! ## Lists cut where a test fails -/

theorem takeWhile_of_neg {p : α → Bool} {rows : List α} (h : ∀ x ∈ rows, p x = false) : rows.takeWhile p = [] := by
  cases rows with
  | nil => rfl
  | cons x rows => rw [List.takeWhile_cons_of_neg (by simp [h x])]

theorem dropWhile_of_neg {p : α → Bool} {rows : List α} (h : ∀ x ∈ rows, p x = false) : rows.dropWhile p = rows := by
  cases rows with
  | nil => rfl
  | cons x rows => rw [List.dropWhile_cons_of_neg (by simp [h x])]

theorem takeWhile_append_of_neg {p : α → Bool} {first second : List α} (h : ∀ x ∈ second, p x = false) :
    (first ++ second).takeWhile p = first.takeWhile p := by
  induction first with
  | nil => exact takeWhile_of_neg h
  | cons x first ih =>
    rw [List.cons_append, List.takeWhile_cons, List.takeWhile_cons, ih]

theorem dropWhile_append_of_neg {p : α → Bool} {first second : List α} (h : ∀ x ∈ second, p x = false) :
    (first ++ second).dropWhile p = first.dropWhile p ++ second := by
  induction first with
  | nil => exact dropWhile_of_neg h
  | cons x first ih =>
    rw [List.cons_append, List.dropWhile_cons, List.dropWhile_cons, ih]
    split_ifs <;> rfl

section Gather

variable (cover : α → List α → α) (ends : Nat → Nat)

/-- put behind each row what it reaches of the heaps below it, from the bottom up -/
def gather : Nat → List α → List (Nat × α)
  | _, [] => []
  | row, x :: rest =>
    let below := gather (row + 1) rest
    (row, cover x ((below.takeWhile fun heap => heap.1 ≤ ends row).map (·.2))) ::
      below.dropWhile fun heap => heap.1 ≤ ends row

/-- put behind each row the rows below it, as far as it reaches -/
def nest : Nat → List α → List α
  | _, [] => []
  | row, x :: rest =>
    cover x (nest (row + 1) (rest.take (ends row - row))) ::
      nest (row + 1 + (ends row - row)) (rest.drop (ends row - row))
termination_by _ rows => rows.length
decreasing_by
  · simp only [List.length_take, List.length_cons]
    omega
  · simp only [List.length_drop, List.length_cons]
    omega

/-- rows that nothing is behind -/
def numbered : Nat → List α → List (Nat × α)
  | _, [] => []
  | row, x :: rest => (row, x) :: numbered (row + 1) rest

variable {cover ends} {row : Nat} {rows : List α}

theorem map_snd_numbered (row : Nat) (rows : List α) : (numbered row rows).map (·.2) = rows := by
  induction rows generalizing row with
  | nil => rfl
  | cons x rows ih => rw [numbered, List.map_cons, ih]

theorem mem_numbered {heap : Nat × α} (h : heap ∈ numbered row rows) : row ≤ heap.1 ∧ heap.1 < row + rows.length := by
  induction rows generalizing row with
  | nil => cases h
  | cons x rows ih =>
    rw [List.length_cons]
    rcases List.mem_cons.1 h with rfl | h
    · exact ⟨Nat.le_refl _, by omega⟩
    · have hrest := ih h
      omega

theorem mem_numbered_of_getElem? (row : Nat) {i : Nat} {x : α} (h : rows[i]? = some x) : (row + i, x) ∈ numbered row rows := by
  induction rows generalizing row i with
  | nil => cases h
  | cons first rows ih =>
    cases i with
    | zero =>
      cases h
      exact List.mem_cons_self
    | succ i =>
      rw [Nat.add_succ, ← Nat.succ_add]
      exact List.mem_cons_of_mem _ (ih (row + 1) h)

/-- the heaps are numbered by their first rows, in order -/
theorem mem_gather {heap : Nat × α} (h : heap ∈ gather cover ends row rows) :
    row ≤ heap.1 ∧ heap.1 < row + rows.length := by
  induction rows generalizing row with
  | nil => cases h
  | cons x rows ih =>
    rw [List.length_cons]
    rcases List.mem_cons.1 h with rfl | h
    · exact ⟨Nat.le_refl _, by omega⟩
    · have hrest := ih ((List.dropWhile_sublist _).subset h)
      omega

theorem gather_sorted : (gather cover ends row rows).Pairwise fun a b => a.1 < b.1 := by
  induction rows generalizing row with
  | nil => exact .nil
  | cons x rows ih =>
    refine List.pairwise_cons.2 ⟨fun heap hb => ?_, ih.sublist (List.dropWhile_sublist _)⟩
    have hrow := mem_gather ((List.dropWhile_sublist _).subset hb)
    exact hrow.1

/-- what is left of sorted heaps comes after those that are reached -/
theorem lt_of_mem_dropWhile {heaps : List (Nat × α)} (hs : heaps.Pairwise fun a b => a.1 < b.1) {stop : Nat}
    {heap : Nat × α} (h : heap ∈ heaps.dropWhile fun heap => heap.1 ≤ stop) : stop < heap.1 := by
  induction heaps with
  | nil => cases h
  | cons first heaps ih =>
    obtain ⟨hfirst, hrest⟩ := List.pairwise_cons.1 hs
    by_cases hle : first.1 ≤ stop
    · rw [List.dropWhile_cons_of_pos (by simpa using hle)] at h
      exact ih hrest h
    · rw [List.dropWhile_cons_of_neg (by simpa using hle)] at h
      rcases List.mem_cons.1 h with rfl | h
      · omega
      · have hlt := hfirst heap h
        omega

theorem mem_takeWhile_of_le {heaps : List (Nat × α)} (hs : heaps.Pairwise fun a b => a.1 < b.1) {stop : Nat}
    {heap : Nat × α} (h : heap ∈ heaps) (hle : heap.1 ≤ stop) : heap ∈ heaps.takeWhile fun heap => heap.1 ≤ stop := by
  rw [← List.takeWhile_append_dropWhile (p := fun heap : Nat × α => decide (heap.1 ≤ stop)) (l := heaps),
    List.mem_append] at h
  refine h.resolve_right fun hrest => ?_
  have hlt := lt_of_mem_dropWhile hs hrest
  omega

theorem le_of_mem_takeWhile {heaps : List (Nat × α)} {stop : Nat} {heap : Nat × α}
    (h : heap ∈ heaps.takeWhile fun heap => heap.1 ≤ stop) : heap.1 ≤ stop := by
  simpa using List.mem_takeWhile_imp h

/-- sorted heaps cut above the one with a given first row -/
theorem cut_above {heaps : List (Nat × α)} (hs : heaps.Pairwise fun a b => a.1 < b.1) {stop : Nat} {x : α}
    (h : (stop + 1, x) ∈ heaps) :
    (∃ under, (heaps.dropWhile fun heap => heap.1 ≤ stop) = (stop + 1, x) :: under) ∧
      (heaps.takeWhile fun heap => heap.1 ≤ stop + 1) = (heaps.takeWhile fun heap => heap.1 ≤ stop) ++ [(stop + 1, x)] := by
  induction heaps with
  | nil => cases h
  | cons first heaps ih =>
    obtain ⟨hfirst, hrest⟩ := List.pairwise_cons.1 hs
    rcases List.mem_cons.1 h with rfl | h
    · have hunreached : ∀ heap ∈ heaps, decide (heap.1 ≤ stop + 1) = false := by
        intro heap hheap
        have hlt := hfirst heap hheap
        simpa using hlt
      rw [List.dropWhile_cons_of_neg (by simp), List.takeWhile_cons_of_pos (by simp), List.takeWhile_cons_of_neg (by simp),
        takeWhile_of_neg hunreached]
      exact ⟨⟨heaps, rfl⟩, rfl⟩
    · have hlt := hfirst _ h
      simp only at hlt
      rw [List.dropWhile_cons_of_pos (by simp; omega), List.takeWhile_cons_of_pos (by simp; omega),
        List.takeWhile_cons_of_pos (by simp; omega), (ih hrest h).2]
      exact ⟨(ih hrest h).1, rfl⟩

/-- a row that no row above it reaches is the first of a heap -/
theorem mem_gather_of_unreached {row' : Nat} (hle : row ≤ row') (hlt : row' < row + rows.length)
    (h : ∀ c, row ≤ c → c < row' → ends c < row') : ∃ x, (row', x) ∈ gather cover ends row rows := by
  induction rows generalizing row with
  | nil => simp only [List.length_nil] at hlt; omega
  | cons x rows ih =>
    rw [List.length_cons] at hlt
    rcases Nat.eq_or_lt_of_le hle with rfl | hbelow
    · exact ⟨_, List.mem_cons_self⟩
    · obtain ⟨y, hy⟩ := ih hbelow (by omega) fun c hc hc' => h c (by omega) hc'
      refine ⟨y, List.mem_cons_of_mem _ ?_⟩
      rw [← List.takeWhile_append_dropWhile (p := fun heap : Nat × α => decide (heap.1 ≤ ends row))
        (l := gather cover ends (row + 1) rows), List.mem_append] at hy
      refine hy.resolve_left fun htaken => ?_
      have hreached := le_of_mem_takeWhile htaken
      have hunreached := h row (Nat.le_refl _) hbelow
      omega

/-- only how far the rows reach that are gathered matters -/
theorem gather_congr {ends' : Nat → Nat} (h : ∀ c, row ≤ c → ends c = ends' c) :
    gather cover ends row rows = gather cover ends' row rows := by
  induction rows generalizing row with
  | nil => rfl
  | cons x rows ih =>
    have hrest : gather cover ends (row + 1) rows = gather cover ends' (row + 1) rows :=
      ih fun c hc => h c (by omega)
    simp only [gather, hrest, h row (Nat.le_refl _)]

/-- the row that a heap began with, what it took of the heaps below it, and what it left of them -/
theorem gather_split {front back : List (Nat × α)} {heap : Nat × α} (h : gather cover ends row rows = front ++ heap :: back) :
    ∃ above x rest, rows = above ++ x :: rest ∧
      heap = (row + above.length, cover x (((gather cover ends (row + above.length + 1) rest).takeWhile
        fun heap => heap.1 ≤ ends (row + above.length)).map (·.2))) ∧
      back = (gather cover ends (row + above.length + 1) rest).dropWhile fun heap => heap.1 ≤ ends (row + above.length) := by
  induction rows generalizing row front with
  | nil => simp [gather] at h
  | cons x rows ih =>
    cases front with
    | nil =>
      obtain ⟨rfl, rfl⟩ := List.cons.inj h
      exact ⟨[], x, rows, rfl, rfl, rfl⟩
    | cons first front =>
      have hleft : (gather cover ends (row + 1) rows).dropWhile (fun heap => heap.1 ≤ ends row) = front ++ heap :: back :=
        (List.cons.inj h).2
      have hrest : gather cover ends (row + 1) rows =
          ((gather cover ends (row + 1) rows).takeWhile (fun heap => heap.1 ≤ ends row) ++ front) ++ heap :: back := by
        rw [List.append_assoc, ← hleft, List.takeWhile_append_dropWhile]
      obtain ⟨above, y, rest, rfl, hheap, hback⟩ := ih hrest
      refine ⟨x :: above, y, rest, rfl, ?_⟩
      rw [List.length_cons, Nat.add_comm above.length, ← Nat.add_assoc]
      exact ⟨hheap, hback⟩

/-- below a row that took nothing stands the heap of the next row, which it does not reach -/
theorem gather_next {front back : List (Nat × α)} {heap heap' : Nat × α}
    (h : gather cover ends row rows = front ++ heap :: heap' :: back) :
    ∃ above x taken rest, rows = above ++ x :: rest ∧ heap = (row + above.length, cover x taken) ∧
      (taken = [] → ends (row + above.length) ≤ row + above.length ∧
        ∃ x' taken' rest', rest = x' :: rest' ∧ heap' = (row + above.length + 1, cover x' taken')) := by
  obtain ⟨above, x, rest, hrows, hheap, hback⟩ := gather_split h
  refine ⟨above, x, _, rest, hrows, hheap, fun hnone => ?_⟩
  have hunreached : ends (row + above.length) < heap'.1 := lt_of_mem_dropWhile gather_sorted (hback ▸ List.mem_cons_self)
  have hall : heap' :: back = gather cover ends (row + above.length + 1) rest := by
    calc heap' :: back
        _ = [] ++ (gather cover ends (row + above.length + 1) rest).dropWhile fun heap => heap.1 ≤ ends (row + above.length) := hback
        _ = gather cover ends (row + above.length + 1) rest := by
          rw [← List.map_eq_nil_iff.1 hnone, List.takeWhile_append_dropWhile]
  cases rest with
  | nil => cases hall
  | cons x' rest' =>
    obtain ⟨rfl, -⟩ := List.cons.inj hall
    exact ⟨Nat.le_of_lt_succ hunreached, x', _, rest', rfl, rfl⟩

section Laws

variable (hnil : ∀ x, cover x [] = x)
include hnil

/-- rows that reach nothing stand as they are -/
theorem gather_append_of_flat {above rest : List α} (h : ∀ c, row ≤ c → c < row + above.length → ends c ≤ c) :
    gather cover ends row (above ++ rest) =
      numbered row above ++ gather cover ends (row + above.length) rest := by
  induction above generalizing row with
  | nil => rfl
  | cons x above ih =>
    rw [List.length_cons] at h
    have hunreached : ∀ heap ∈ gather cover ends (row + 1) (above ++ rest), decide (heap.1 ≤ ends row) = false := by
      intro heap hheap
      have hrow := (mem_gather hheap).1
      have hend := h row (Nat.le_refl _) (by omega)
      simp only [decide_eq_false_iff_not]
      omega
    simp only [List.cons_append, gather, takeWhile_of_neg hunreached, dropWhile_of_neg hunreached, List.map_nil, hnil,
      numbered]
    rw [ih fun c hc hc' => h c (by omega) (by omega), List.length_cons, Nat.add_assoc, Nat.add_comm 1]

/-- **A row that reaches further takes more of the heaps below it.** Nothing above it was gathered yet. -/
theorem gather_update (hcover : ∀ x first second, cover (cover x first) second = cover x (first ++ second))
    (above : List α) (x : α) (rest : List α) {stop : Nat} (hflat : ∀ c < above.length, ends c ≤ c)
    (hstop : ends above.length ≤ stop) :
    ∃ y left, gather cover ends 0 (above ++ x :: rest) = numbered 0 above ++ (above.length, y) :: left ∧
      (∀ heap ∈ left, ends above.length < heap.1) ∧
      gather cover (Function.update ends above.length stop) 0 (above ++ x :: rest) = numbered 0 above ++
        (above.length, cover y ((left.takeWhile fun heap => heap.1 ≤ stop).map (·.2))) ::
          left.dropWhile fun heap => heap.1 ≤ stop := by
  set below := gather cover ends (above.length + 1) rest with hbelow
  have hsame : gather cover (Function.update ends above.length stop) (above.length + 1) rest = below :=
    gather_congr fun c hc => Function.update_of_ne (by omega) _ _
  have hreached : ∀ heap ∈ below.takeWhile (fun heap => heap.1 ≤ ends above.length), decide (heap.1 ≤ stop) = true := by
    intro heap hheap
    have hle := List.mem_takeWhile_imp hheap
    simp only [decide_eq_true_eq] at hle ⊢
    omega
  have htake : below.takeWhile (fun heap => heap.1 ≤ stop) = below.takeWhile (fun heap => heap.1 ≤ ends above.length) ++
      (below.dropWhile fun heap => heap.1 ≤ ends above.length).takeWhile fun heap => heap.1 ≤ stop := by
    conv_lhs => rw [← List.takeWhile_append_dropWhile (p := fun heap : Nat × α => decide (heap.1 ≤ ends above.length))
      (l := below)]
    exact List.takeWhile_append_of_pos hreached
  have hdrop : below.dropWhile (fun heap => heap.1 ≤ stop) =
      (below.dropWhile fun heap => heap.1 ≤ ends above.length).dropWhile fun heap => heap.1 ≤ stop := by
    conv_lhs => rw [← List.takeWhile_append_dropWhile (p := fun heap : Nat × α => decide (heap.1 ≤ ends above.length))
      (l := below)]
    exact List.dropWhile_append_of_pos hreached
  refine ⟨cover x ((below.takeWhile fun heap => heap.1 ≤ ends above.length).map (·.2)),
    below.dropWhile fun heap => heap.1 ≤ ends above.length, ?_, ?_, ?_⟩
  · rw [gather_append_of_flat hnil fun c _ hc => hflat c (by omega), Nat.zero_add]
    rfl
  · exact fun heap hheap => lt_of_mem_dropWhile gather_sorted hheap
  · have hflat' : ∀ c, 0 ≤ c → c < 0 + above.length → Function.update ends above.length stop c ≤ c := by
      intro c _ hc
      rw [Function.update_of_ne (by omega)]
      exact hflat c (by omega)
    rw [gather_append_of_flat hnil hflat', Nat.zero_add]
    simp only [gather, hsame, Function.update_self, htake, hdrop, List.map_append, hcover]

end Laws

/-! ## Gathered and nested -/

/-- rows of which none reaches past the first of them are gathered on their own -/
theorem gather_append {first second : List α}
    (h : ∀ c, row ≤ c → c < row + first.length → ends c < row + first.length) :
    gather cover ends row (first ++ second) =
      gather cover ends row first ++ gather cover ends (row + first.length) second := by
  induction first generalizing row with
  | nil => rfl
  | cons x first ih =>
    rw [List.length_cons] at h
    have hrest : gather cover ends (row + 1) (first ++ second) =
        gather cover ends (row + 1) first ++ gather cover ends (row + 1 + first.length) second := by
      refine ih fun c hc hc' => ?_
      have hend := h c (by omega) (by omega)
      omega
    have hunreached : ∀ heap ∈ gather cover ends (row + 1 + first.length) second, decide (heap.1 ≤ ends row) = false := by
      intro heap hheap
      have hrow := (mem_gather hheap).1
      have hend := h row (Nat.le_refl _) (by omega)
      simp only [decide_eq_false_iff_not]
      omega
    simp only [List.cons_append, gather, hrest, takeWhile_append_of_neg hunreached, dropWhile_append_of_neg hunreached]
    rw [List.length_cons, Nat.add_right_comm, Nat.add_assoc]

/-- the heaps below a row, cut where its reach ends, are those of the rows below it, cut there -/
theorem gather_cut (hnested : ∀ b c, b < c → c ≤ ends b → ends c ≤ ends b) (row : Nat) (rest : List α) :
    (gather cover ends (row + 1) rest).takeWhile (fun heap => heap.1 ≤ ends row) =
        gather cover ends (row + 1) (rest.take (ends row - row)) ∧
      (gather cover ends (row + 1) rest).dropWhile (fun heap => heap.1 ≤ ends row) =
        gather cover ends (row + 1 + (ends row - row)) (rest.drop (ends row - row)) := by
  have hreached : ∀ heap ∈ gather cover ends (row + 1) (rest.take (ends row - row)), decide (heap.1 ≤ ends row) = true := by
    intro heap hheap
    have hrow := mem_gather hheap
    rw [List.length_take] at hrow
    simp only [decide_eq_true_eq]
    omega
  by_cases hall : rest.length ≤ ends row - row
  · rw [List.take_of_length_le hall] at hreached ⊢
    rw [List.drop_eq_nil_of_le hall]
    exact ⟨List.takeWhile_eq_self_iff.2 hreached, List.dropWhile_eq_nil_iff.2 hreached⟩
  · have hlen : (rest.take (ends row - row)).length = ends row - row := by
      rw [List.length_take]
      omega
    have hwithin : ∀ c, row + 1 ≤ c → c < row + 1 + (rest.take (ends row - row)).length →
        ends c < row + 1 + (rest.take (ends row - row)).length := by
      intro c hc hc'
      rw [hlen] at hc' ⊢
      have hend := hnested row c (by omega) (by omega)
      omega
    have hunreached : ∀ heap ∈ gather cover ends (row + 1 + (ends row - row)) (rest.drop (ends row - row)),
        decide (heap.1 ≤ ends row) = false := by
      intro heap hheap
      have hle := (mem_gather hheap).1
      simp only [decide_eq_false_iff_not]
      omega
    have hsplit : gather cover ends (row + 1) rest = gather cover ends (row + 1) (rest.take (ends row - row)) ++
        gather cover ends (row + 1 + (ends row - row)) (rest.drop (ends row - row)) := by
      conv_lhs => rw [← List.take_append_drop (ends row - row) rest]
      rw [gather_append hwithin, hlen]
    rw [hsplit, takeWhile_append_of_neg hunreached, dropWhile_append_of_neg hunreached]
    exact ⟨List.takeWhile_eq_self_iff.2 hreached, by rw [List.dropWhile_eq_nil_iff.2 hreached, List.nil_append]⟩

/-- **Rows gathered from the bottom are the rows nested**, if none reaches past the reach of one above it. -/
theorem gather_eq_nest (hnested : ∀ b c, b < c → c ≤ ends b → ends c ≤ ends b) (row : Nat) (rows : List α) :
    (gather cover ends row rows).map (·.2) = nest cover ends row rows := by
  fun_induction nest cover ends row rows with
  | case1 row => rfl
  | case2 row x rest ih ih' =>
    obtain ⟨htaken, hleft⟩ := @gather_cut α cover ends hnested row rest
    simp only [gather, htaken, hleft, List.map_cons, ih, ih']

/-- gathering commutes with what turns rows into others -/
theorem map_gather {cover' : β → List β → β} {f : α → β} (hf : ∀ x xs, f (cover x xs) = cover' (f x) (xs.map f)) :
    (gather cover ends row rows).map (Prod.map id f) = gather cover' ends row (rows.map f) := by
  induction rows generalizing row with
  | nil => rfl
  | cons x rows ih =>
    have htest : (fun heap : Nat × β => decide (heap.1 ≤ ends row)) ∘ Prod.map id f =
        fun heap => decide (heap.1 ≤ ends row) := rfl
    simp only [List.map_cons, gather, ← ih, List.takeWhile_map, List.dropWhile_map, htest, List.map_map, Prod.map_apply, id,
      hf]
    rfl

end Gather

end Linewise
