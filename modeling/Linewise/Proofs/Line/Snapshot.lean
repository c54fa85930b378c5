/-
The texts held by snapshots.

`hiddenTexts` goes down into every child, while bringing lines back goes down only into children marked collapsed. The two
agree on proper snapshots, in which a child is marked collapsed exactly if it hides lines: there, whatever the depth,
the lines that come back hold the texts that were hidden, in order (`texts_restoredAll`).
-/
import Linewise.Line.Carry
import Linewise.Sheet.Collapse
import Mathlib.Tactic.SplitIfs

namespace Linewise.Snapshot

/-- a line is marked collapsed exactly if it hides lines, all the way down -/
inductive Proper : Snapshot → Prop where
  | intro (s : Snapshot) (hc : s.collapsed = true ↔ s.children ≠ []) (h : ∀ child ∈ s.children, Proper child) : Proper s

/-- the snapshot of a line of the document: it is proper, and hides something -/
structure Attached (s : Snapshot) : Prop where
  children : s.children ≠ []
  proper : ∀ child ∈ s.children, child.Proper

/-- the texts of a line that comes back and of what it hides -/
def lineTexts (line : Text × Option Snapshot) : List Text :=
  line.1 :: ((line.2.map hiddenTexts).getD [])

/-! ## Texts of trees -/

theorem hiddenTexts_eq (s : Snapshot) : s.hiddenTexts = textsOf s.children := by
  cases s
  rw [hiddenTexts]

theorem hiddenCount_eq (s : Snapshot) : s.hiddenCount = countAll s.children := by
  cases s
  rw [hiddenCount]

theorem textsOf_append (first second : List Snapshot) :
    textsOf (first ++ second) = textsOf first ++ textsOf second := by
  induction first with
  | nil => simp [textsOf]
  | cons child first ih => simp [textsOf, ih]

theorem textsOf_eq_flatMap (children : List Snapshot) :
    textsOf children = children.flatMap fun child => child.text :: child.hiddenTexts := by
  induction children with
  | nil => simp [textsOf]
  | cons child children ih => simp [textsOf, ih]

mutual

theorem length_hiddenTexts : ∀ s : Snapshot, s.hiddenTexts.length = s.hiddenCount
  | ⟨_, _, _, children, _⟩ => by
    rw [hiddenTexts, hiddenCount]
    exact length_textsOf children

/-- as many texts are hidden as lines are counted -/
theorem length_textsOf : ∀ children : List Snapshot, (textsOf children).length = countAll children
  | [] => by simp [textsOf, countAll]
  | child :: children => by
    have hchild := length_hiddenTexts child
    have hrest := length_textsOf children
    simp only [textsOf, countAll, List.cons_append, List.length_cons, List.length_append]
    omega

end

/-! ## Lines that come back -/

theorem reattached_attached {child : Snapshot} (h : child.Proper) (hc : child.collapsed = true) :
    child.reattached.Attached := by
  cases h with
  | intro _ hiff hall => exact ⟨hiff.1 hc, hall⟩

/-- what is said of the lines that come back with each child holds of those that come back with all -/
theorem texts_restoredAll_of {deep : Bool} {children : List Snapshot}
    (h : ∀ child ∈ children, (child.restored deep).flatMap lineTexts = child.text :: child.hiddenTexts) :
    (restoredAll deep children).flatMap lineTexts = textsOf children := by
  induction children with
  | nil => simp [restoredAll, textsOf]
  | cons child children ih =>
    rw [restoredAll, textsOf, List.flatMap_append, h child List.mem_cons_self,
      ih fun c hc => h c (List.mem_cons_of_mem _ hc)]

theorem texts_restored {deep : Bool} {s : Snapshot} (h : s.Proper) :
    (s.restored deep).flatMap lineTexts = s.text :: s.hiddenTexts := by
  induction h with
  | intro s hc _ ih =>
    obtain ⟨text, collapsed, tallies, children, carried⟩ := s
    simp only at hc ih
    rw [restored, hiddenTexts_eq]
    cases collapsed with
    | false =>
      have hnil : children = [] := by simpa using hc
      simp [lineTexts, hnil, textsOf]
    | true =>
      cases deep with
      | true => simp [lineTexts, texts_restoredAll_of ih]
      | false => simp [lineTexts, reattached, hiddenTexts_eq]

/-- **The lines that come back hold the texts that were hidden, in order.** -/
theorem texts_restoredAll (deep : Bool) {children : List Snapshot} (h : ∀ child ∈ children, child.Proper) :
    (restoredAll deep children).flatMap lineTexts = textsOf children :=
  texts_restoredAll_of fun child hc => texts_restored (h child hc)

theorem mem_restoredAll {deep : Bool} {children : List Snapshot} {line : Text × Option Snapshot}
    (h : line ∈ restoredAll deep children) : ∃ child ∈ children, line ∈ child.restored deep := by
  induction children with
  | nil => simp [restoredAll] at h
  | cons child children ih =>
    rw [restoredAll, List.mem_append] at h
    rcases h with h | h
    · exact ⟨child, List.mem_cons_self, h⟩
    · obtain ⟨c, hc, hline⟩ := ih h
      exact ⟨c, List.mem_cons_of_mem _ hc, hline⟩

theorem restored_attached {deep : Bool} {s : Snapshot} (h : s.Proper) {line : Text × Option Snapshot}
    (hl : line ∈ s.restored deep) {snapshot : Snapshot} (hs : line.2 = some snapshot) : snapshot.Attached := by
  induction h generalizing line with
  | intro s hc hall ih =>
    have hp : s.Proper := .intro s hc hall
    obtain ⟨text, collapsed, tallies, children, carried⟩ := s
    rw [restored] at hl
    cases collapsed with
    | false =>
      simp only [Bool.not_false, if_true, List.mem_singleton] at hl
      rw [hl] at hs
      cases hs
    | true =>
      cases deep with
      | true =>
        simp only [Bool.not_true, Bool.false_eq_true, if_false, if_true, List.mem_cons] at hl
        rcases hl with rfl | hl
        · cases hs
        · obtain ⟨child, hchild, hline⟩ := mem_restoredAll hl
          exact ih child hchild hline hs
      | false =>
        simp only [Bool.not_true, Bool.false_eq_true, if_false, List.mem_singleton] at hl
        rw [hl] at hs
        cases hs
        exact reattached_attached hp rfl

theorem restoredAll_attached {deep : Bool} {children : List Snapshot} (h : ∀ child ∈ children, child.Proper)
    {line : Text × Option Snapshot} (hl : line ∈ restoredAll deep children) {snapshot : Snapshot}
    (hs : line.2 = some snapshot) : snapshot.Attached := by
  obtain ⟨child, hc, hline⟩ := mem_restoredAll hl
  exact restored_attached (h child hc) hline hs

mutual

theorem carried_restored {deep : Bool} {line : Text × Option Snapshot} {snapshot : Snapshot}
    (hs : line.2 = some snapshot) : ∀ s : Snapshot, line ∈ s.restored deep → snapshot.carried = none
  | ⟨text, collapsed, tallies, children, carried⟩, hl => by
    rw [restored] at hl
    split_ifs at hl
    · rw [List.mem_singleton.1 hl] at hs
      cases hs
    · rcases List.mem_cons.1 hl with rfl | hl
      · cases hs
      · exact carried_restoredAll hs children hl
    · rw [List.mem_singleton.1 hl] at hs
      cases hs
      rfl

/-- nothing is noted with a line that comes back collapsed -/
theorem carried_restoredAll {deep : Bool} {line : Text × Option Snapshot} {snapshot : Snapshot}
    (hs : line.2 = some snapshot) :
    ∀ children : List Snapshot, line ∈ restoredAll deep children → snapshot.carried = none
  | [], hl => by
    rw [restoredAll] at hl
    exact absurd hl List.not_mem_nil
  | child :: children, hl => by
    rw [restoredAll] at hl
    rcases List.mem_append.1 hl with hl | hl
    · exact carried_restored hs child hl
    · exact carried_restoredAll hs children hl

end

mutual

theorem flat_restored {line : Text × Option Snapshot} : ∀ s : Snapshot, line ∈ s.restored true → line.2 = none
  | ⟨text, collapsed, tallies, children, carried⟩, hl => by
    rw [restored] at hl
    split_ifs at hl
    · rw [List.mem_singleton.1 hl]
    · rcases List.mem_cons.1 hl with rfl | hl
      · rfl
      · exact flat_restoredAll children hl
    · exact absurd rfl ‹_›

/-- lines brought back all the way down hide nothing -/
theorem flat_restoredAll {line : Text × Option Snapshot} :
    ∀ children : List Snapshot, line ∈ restoredAll true children → line.2 = none
  | [], hl => by
    rw [restoredAll] at hl
    exact absurd hl List.not_mem_nil
  | child :: children, hl => by
    rw [restoredAll] at hl
    rcases List.mem_append.1 hl with hl | hl
    · exact flat_restored child hl
    · exact flat_restoredAll children hl

end

/-- lines brought back one level: one for each child -/
theorem restoredAll_shallow (children : List Snapshot) :
    restoredAll false children =
      children.map fun child => (child.text, if child.collapsed then some child.reattached else none) := by
  induction children with
  | nil => simp [restoredAll]
  | cons child children ih =>
    obtain ⟨text, collapsed, tallies, inner, carried⟩ := child
    cases collapsed <;> simp [restoredAll, restored, ih]

/-! ## Lines that go behind another -/

theorem hiddenTexts_extend (old : Option Snapshot) (text : Text) (children : List Snapshot) (carried : Carried) :
    (extend old text children carried).hiddenTexts = ((old.map hiddenTexts).getD []) ++ textsOf children := by
  rw [hiddenTexts_eq]
  cases old with
  | none => simp [extend]
  | some old => simp [extend, textsOf_append, hiddenTexts_eq]

theorem extend_attached {old : Option Snapshot} (ho : ∀ snapshot, old = some snapshot → snapshot.Attached) (text : Text)
    {children : List Snapshot} (hne : children ≠ []) (hc : ∀ child ∈ children, child.Proper) (carried : Carried) :
    (extend old text children carried).Attached := by
  refine ⟨by simp [extend, hne], ?_⟩
  intro child hchild
  rcases List.mem_append.1 hchild with hold | hnew
  · cases old with
    | none => exact absurd hold List.not_mem_nil
    | some snapshot => exact (ho snapshot rfl).proper child hold
  · exact hc child hnew

theorem hiddenTexts_carry (g : Grammar) (s : Snapshot) (incoming : RuleId) :
    (s.carry g incoming).hiddenTexts = s.hiddenTexts := by
  rw [hiddenTexts_eq, hiddenTexts_eq]
  rfl

end Linewise.Snapshot

namespace Linewise.LineState

theorem textsOf_children (state : LineState) :
    Snapshot.textsOf ((state.snapshot.map (·.children)).getD []) = (state.snapshot.map (·.hiddenTexts)).getD [] := by
  cases state.snapshot with
  | none => simp [Snapshot.textsOf]
  | some snapshot => simp [Snapshot.hiddenTexts_eq]

theorem toSnapshot_proper {state : LineState} (h : ∀ snapshot, state.snapshot = some snapshot → snapshot.Attached)
    (text : Text) : (state.toSnapshot text).Proper := by
  cases hs : state.snapshot with
  | none =>
    refine .intro _ ?_ ?_
    · simp [toSnapshot, isCollapsed, hs]
    · simp [toSnapshot, hs]
  | some snapshot =>
    have ha := h snapshot hs
    refine .intro _ ?_ ?_
    · simp [toSnapshot, isCollapsed, hs, ha.children]
    · simpa [toSnapshot, hs] using ha.proper

end Linewise.LineState
