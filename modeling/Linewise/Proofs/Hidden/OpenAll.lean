/-
Expanding all lines opens every collapsed line once.

A collapsed line is a visible one that hides others, or a hidden one that is marked collapsed, however deep. Expanding a
line one level makes its hidden lines visible and leaves every mark below them: it takes one collapsed line away
(`expand_collapsedCount`). A walk over the lines therefore counts what it takes away (`Walk.collapsedCount`), and the walk
over all lines leaves nothing to take away.

The walk is bounded by the lines to come, hidden ones included. The bound is not what ends it: it visits each of them once
and is past the last line then.
-/
import Linewise.Proofs.Hidden.Trees

namespace Linewise

namespace Snapshot

mutual

/-- the lines hidden behind a line, at any depth, in order -/
def descendants : Snapshot → List Snapshot
  | ⟨_, _, _, children, _⟩ => withDescendants children

/-- lines, each followed by those hidden behind it, at any depth -/
def withDescendants : List Snapshot → List Snapshot
  | [] => []
  | child :: children => child :: child.descendants ++ withDescendants children

end

theorem descendants_eq (s : Snapshot) : s.descendants = withDescendants s.children := by
  cases s
  rw [descendants]

end Snapshot

/-- the lines hidden behind a line of the document, at any depth -/
def Row.descendants (r : Row) : List Snapshot := (r.state.snapshot.map (·.descendants)).getD []

/-- how many lines are collapsed: the rows that hide lines, and the hidden lines marked collapsed -/
def collapsedIn (rows : List Row) : Nat :=
  rows.countP (·.state.isCollapsed) + (rows.flatMap Row.descendants).countP (·.collapsed)

/-- how many lines of a sheet are collapsed, hidden ones included -/
def Sheet.collapsedCount (s : Sheet) : Nat := collapsedIn s.rows

section CollapsedIn

variable {rows : List Row}

theorem collapsedIn_append (above below : List Row) :
    collapsedIn (above ++ below) = collapsedIn above + collapsedIn below := by
  simp only [collapsedIn, List.countP_append, List.flatMap_append]
  omega

theorem collapsedIn_cons (r : Row) (rows : List Row) :
    collapsedIn (r :: rows) =
      (if r.state.isCollapsed then 1 else 0) + r.descendants.countP (·.collapsed) + collapsedIn rows := by
  simp only [collapsedIn, List.countP_cons, List.flatMap_cons, List.countP_append]
  omega

theorem collapsedIn_dirtyFirst (rows : List Row) : collapsedIn (dirtyFirst rows) = collapsedIn rows := by
  cases rows with
  | nil => rfl
  | cons r rows =>
    rw [dirtyFirst, List.modifyHead_cons, collapsedIn_cons, collapsedIn_cons]
    rfl

theorem collapsedIn_of_flat (h : ∀ r ∈ rows, r.state.snapshot = none) : collapsedIn rows = 0 := by
  induction rows with
  | nil => rfl
  | cons r rows ih =>
    rw [List.forall_mem_cons] at h
    rw [collapsedIn_cons, ih h.2]
    simp [LineState.isCollapsed, Row.descendants, h.1]

/-- a row that hides lines is collapsed itself -/
theorem collapsedIn_cons_of_snapshot {r : Row} {snapshot : Snapshot} (hs : r.state.snapshot = some snapshot) :
    collapsedIn (r :: rows) =
      1 + (Snapshot.withDescendants snapshot.children).countP (·.collapsed) + collapsedIn rows := by
  rw [collapsedIn_cons, ← Snapshot.descendants_eq]
  simp [LineState.isCollapsed, Row.descendants, hs]

/-- lines brought back one level are collapsed as often as they were marked so while hidden -/
theorem collapsedIn_restored {ids : List LineId} {children : List Snapshot} (hl : ids.length = children.length)
    (hp : ∀ child ∈ children, child.Proper) :
    collapsedIn (Row.restored ids (Snapshot.restoredAll false children)) =
      (Snapshot.withDescendants children).countP (·.collapsed) := by
  rw [Snapshot.restoredAll_shallow]
  induction children generalizing ids with
  | nil =>
    rw [List.length_eq_zero_iff.1 hl, Snapshot.withDescendants]
    rfl
  | cons child children ih =>
    cases ids with
    | nil => cases hl
    | cons id ids =>
      rw [List.forall_mem_cons] at hp
      have hrest := ih (Nat.succ.inj hl) hp.2
      rw [Row.restored] at hrest ⊢
      rw [List.map_cons, List.zipWith_cons_cons, collapsedIn_cons, hrest, Snapshot.withDescendants, List.countP_append,
        List.countP_cons, Snapshot.descendants_eq]
      by_cases hcollapsed : child.collapsed = true
      · simp [LineState.isCollapsed, Row.descendants, hcollapsed, Snapshot.descendants_eq, Snapshot.reattached]
        omega
      · -- a line that is not marked hides nothing, so no marks are lost with what it hides
        have hnil : child.children = [] := by
          cases hp.1 with
          | intro _ hc _ => simpa [hcollapsed] using hc
        simp [LineState.isCollapsed, Row.descendants, hcollapsed, hnil, Snapshot.withDescendants]

end CollapsedIn

namespace Session

variable {s t : Session}

/-- expanding a collapsed line one level takes one collapsed line away -/
theorem expand_collapsedCount (h : s.WellFormed) (hp : s.Proper) {line : LineId}
    (hc : s.table.isCollapsed line = true) :
    ∃ ids, (s.expand line false).1 = .ok ids ∧ (s.expand line false).2.collapsedCount + 1 = s.collapsedCount := by
  obtain ⟨hline, snapshot, hs⟩ := exists_snapshot h.sheet hc
  obtain ⟨above, below, ho⟩ := List.append_of_mem hline
  have hrows := Sheet.rows_of_split ho
  have hattached : snapshot.Attached := hp (s.row line) (List.mem_map_of_mem hline) snapshot hs
  obtain ⟨ids, hok, hlen, hback⟩ := expand_split h.sheet hrows false hs
  have hcount : ids.length = snapshot.children.length := by
    rw [hlen, Snapshot.restoredAll_shallow, List.length_map]
  have hopened : collapsedIn [(s.row line).opened] = 0 := collapsedIn_of_flat (by simp [Row.opened])
  refine ⟨ids, hok, ?_⟩
  rw [Sheet.collapsedCount, show (s.expand line false).2.rows = _ from hback, Sheet.collapsedCount, hrows,
    collapsedIn_append, collapsedIn_append, ← List.singleton_append, collapsedIn_append, hopened, collapsedIn_append,
    collapsedIn_restored hcount hattached.proper, collapsedIn_dirtyFirst, collapsedIn_cons_of_snapshot hs]
  omega

/-- a visit counts the collapsed line it takes away, if it does -/
theorem expandVisit_collapsedCount (h : s.WellFormed) (hp : s.Proper) {line : LineId} {answer : Nat}
    (hvisit : expandVisit s line = some (answer, t)) :
    t.WellFormed ∧ t.Proper ∧ t.collapsedCount + answer = s.collapsedCount := by
  unfold expandVisit at hvisit
  by_cases hc : s.table.isCollapsed line = true
  · obtain ⟨ids, hok, hone⟩ := expand_collapsedCount h hp hc
    have hexpand : s.expand line false = (.ok ids, s.act (.expand line false)) := Prod.ext hok rfl
    simp only [if_pos hc, hexpand] at hvisit
    cases hvisit
    exact ⟨act_wellFormed h trivial, act_proper h hp trivial, hone⟩
  · rw [if_neg hc] at hvisit
    cases hvisit
    exact ⟨h, hp, Nat.add_zero _⟩

/-- **A walk that expands lines counts the collapsed lines it takes away.** -/
theorem Walk.collapsedCount {line : Option LineId} {visits count : Nat} (hwalk : Walk expandVisit s line visits count t)
    (h : s.WellFormed) (hp : s.Proper) : t.collapsedCount + count = s.collapsedCount := by
  induction hwalk with
  | past => rfl
  | visit hvisit _ ih =>
    obtain ⟨hw, hproper, hone⟩ := expandVisit_collapsedCount h hp hvisit
    have hrest := ih hw hproper
    omega

/-- no line hides anything, as the table tells -/
theorem isCollapsed_of_flat (h : s.toSheet.WellFormed) (hflat : ∀ r ∈ s.rows, r.state.snapshot = none) (id : LineId) :
    s.table.isCollapsed id = false := by
  by_contra hc
  obtain ⟨hid, snapshot, hs⟩ := exists_snapshot h (Bool.not_eq_false _ ▸ hc)
  have hnone := hflat (s.row id) (List.mem_map_of_mem hid)
  rw [hs] at hnone
  cases hnone

end Session

end Linewise
