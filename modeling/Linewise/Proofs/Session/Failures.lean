/-
What a refused operation leaves behind.

With all lines up to date there is nothing to analyse, so an operation that is refused before it changes lines returns
the session it was given (`Atomic`, one statement for each operation). Operations made of several steps are refused at
the first step or not at all: folding all blocks and expanding all lines succeed once they begin (`collapseBlocks_ok`,
`expandAll_spec`). The exception is expanding a line that hides nothing: it is refused after the line was marked.

Main statement: `failed_unchanged_iff`, with `failed_expand_marks` as the operation that leaves a mark.
-/
import Linewise.Proofs.Fold.CollapseBlocks

namespace Linewise.Session

variable {s : Session} {α : Type}

/-- all lines are up to date -/
def Clean (s : Session) : Prop := ∀ id ∈ s.document.order, s.table.isDirty id = false

/-- if the answer is an error, the session is the one before -/
def Atomic (s : Session) (answer : Except EditError α × Session) : Prop :=
  ∀ error, answer.1 = .error error → answer.2 = s

namespace Atomic

theorem refused (s : Session) (answer : Except EditError α) : Atomic s (answer, s) := fun _ _ => rfl

theorem of_ok {answer : Except EditError α × Session} {value : α} (h : answer.1 = .ok value) : Atomic s answer := by
  intro error he
  rw [h] at he
  cases he

end Atomic

theorem reply_error_iff {answer : Except EditError α × Session} {f : α → Reply} {error : EditError} :
    (reply f answer).1 = .error error ↔ answer.1 = .error error := by
  obtain ⟨result, t⟩ := answer
  cases result with
  | error other => simp [reply, Except.map]
  | ok value => simp [reply, Except.map]

theorem Atomic.reply {answer : Except EditError α × Session} (h : Atomic s answer) (f : α → Reply) :
    Atomic s (Session.reply f answer) := by
  intro error he
  exact h error (reply_error_iff.1 he)

/-! ## One operation after the other -/

theorem highlightLine_atomic (s : Session) (line : LineId) : Atomic s (s.highlightLine line) := by
  unfold highlightLine
  split_ifs
  · exact .of_ok rfl
  · exact .refused s _

theorem styledSpans_atomic (hc : s.Clean) (line : LineId) : Atomic s (s.styledSpans line) := by
  unfold styledSpans
  simp only [rehighlight_of_clean hc]
  split
  · exact .refused s _
  · exact .of_ok rfl

theorem setText_atomic (s : Session) (line : LineId) (text : Text) : Atomic s (s.setText line text) := by
  unfold setText
  split
  · exact .refused s _
  · exact .of_ok rfl

theorem insertAfter_atomic (s : Session) (line : Option LineId) (text : Text) : Atomic s (s.insertAfter line text) := by
  unfold insertAfter
  split
  · exact .of_ok rfl
  · split
    · exact .refused s _
    · exact .of_ok rfl

theorem insertBefore_atomic (s : Session) (line : LineId) (text : Text) : Atomic s (s.insertBefore line text) := by
  unfold insertBefore
  split
  · exact .refused s _
  · exact .of_ok rfl

theorem remove_atomic (s : Session) (line : LineId) : Atomic s (s.remove line) := by
  unfold remove
  simp only
  split
  · exact .refused s _
  · exact .of_ok rfl

/-- a layout is given for each kind of delimiter that the grammar has -/
theorem layout_atomic (h : Reachable s) (kind : Nat) : Atomic s (s.layout kind) := by
  by_cases hk : kind < s.grammar.delimiters.length
  · exact .of_ok (layout_answer h hk)
  · unfold layout
    rw [if_neg hk]
    exact .refused s _

theorem segments_atomic (h : Reachable s) (kind : Nat) : Atomic s (s.segments kind) := by
  intro error he
  have hlayout := layout_atomic h kind
  unfold segments at he ⊢
  cases hl : s.layout kind with
  | mk answer t =>
    rw [hl] at he hlayout
    cases answer with
    | error error' => exact hlayout error' rfl
    | ok layout => cases he

theorem collapseClean_atomic (s : Session) (start stop : LineId) : Atomic s (s.collapseClean start stop) := by
  unfold collapseClean Sheet.collapse
  cases s.document.row? start with
  | none => exact .refused s _
  | some first =>
    cases s.document.row? stop with
    | none => exact .refused s _
    | some last =>
      by_cases hle : last ≤ first
      · simp only [if_pos hle]
        exact .refused s _
      · simp only [if_neg hle]
        exact .of_ok rfl

theorem collapse_atomic (hc : s.Clean) (start stop : LineId) : Atomic s (s.collapse start stop) := by
  rw [collapse, rehighlight_of_clean hc]
  exact collapseClean_atomic s start stop

theorem collapseSegment_atomic (hc : s.Clean) (segment : Segment) : Atomic s (s.collapseSegment segment) := by
  unfold collapseSegment
  split
  · exact .refused s _
  · exact .refused s _
  · exact collapse_atomic hc _ _

theorem collapseBlocks_atomic (h : Reachable s) (kind : Nat) : Atomic s (s.collapseBlocks kind) := by
  by_cases hk : kind < s.grammar.delimiters.length
  · obtain ⟨count, hcount⟩ := collapseBlocks_ok h hk
    exact .of_ok hcount
  · have hlayout : s.layout kind = (.error (.unknownDelimiter kind), s) := by rw [layout, if_neg hk]
    simp only [collapseBlocks, segments, hlayout]
    exact .refused s _

theorem expandAll_atomic (h : Reachable s) : Atomic s s.expandAll := by
  obtain ⟨⟨count, hcount⟩, -⟩ := expandAll_spec h.wellFormed h.proper
  exact .of_ok hcount

theorem indentUnits_atomic (s : Session) (line : LineId) : Atomic s (s.indentUnits line) := by
  unfold indentUnits
  split_ifs
  · exact .of_ok rfl
  · exact .refused s _

theorem indentLine_atomic (s : Session) (line : LineId) (caret : Option Nat) : Atomic s (s.indentLine line caret) := by
  have hunits := indentUnits_atomic s line
  unfold indentLine
  cases hu : s.indentUnits line with
  | mk answer t =>
    rw [hu] at hunits
    cases answer with
    | error error =>
      intro _ _
      exact hunits error rfl
    | ok units =>
      simp only
      split_ifs
      · exact .of_ok rfl
      · split
        · exact .of_ok rfl
        · exact .of_ok rfl

/-- the two ways in which a line is not expanded; a line of the document that hides nothing is marked first -/
theorem expand_failed (h : s.WellFormed) {line : LineId} {deep : Bool} {error : EditError}
    (hf : (s.expand line deep).1 = .error error) :
    (line ∉ s.document.order ∧ error = .unknownLine line ∧ (s.expand line deep).2 = s) ∨
      (line ∈ s.document.order ∧ error = .notCollapsed line ∧
        (s.expand line deep).2 = { s with table := s.table.markDirty line }) := by
  by_cases hl : line ∈ s.document.order
  · obtain ⟨above, below, ho⟩ := List.append_of_mem hl
    cases hs : (s.row line).state.snapshot with
    | some snapshot =>
      obtain ⟨ids, hok, -⟩ := expand_rows h.sheet ho deep hs
      rw [hok] at hf
      cases hf
    | none =>
      have hs' : (s.table.entry line).snapshot = none := hs
      have hget := LineTable.get?_eq_some_entry s.table ((h.sheet.table line).2 hl)
      have hexpand : s.expand line deep =
          (.error (.notCollapsed line), { s with table := s.table.markDirty line }) := by
        simp only [expand, Sheet.expand, (Document.contains_iff h.sheet.document line).2 hl, hget, hs', Bool.not_true,
          Bool.false_eq_true, if_false, LineTable.markDirty]
      rw [hexpand] at hf ⊢
      cases hf
      exact Or.inr ⟨hl, rfl, rfl⟩
  · have hexpand : s.expand line deep = (.error (.unknownLine line), s) := by
      simp only [expand, Sheet.expand, Document.contains_eq_false h.sheet.document hl, Bool.not_false, if_true]
    rw [hexpand] at hf ⊢
    cases hf
    exact Or.inl ⟨hl, rfl, rfl⟩

/-! ## All operations -/

/-- every operation but expanding a line is refused without a trace -/
theorem perform_atomic (h : Reachable s) (hc : s.Clean) {op : Op} (hop : ∀ line deep, op ≠ .expand line deep) :
    Atomic s (s.perform op) := by
  cases op with
  | rehighlight => exact .of_ok rfl
  | highlightLine line => exact (highlightLine_atomic s line).reply _
  | styledSpans line => exact (styledSpans_atomic hc line).reply _
  | setText line text => exact (setText_atomic s line text).reply _
  | insertAfter line text => exact (insertAfter_atomic s line text).reply _
  | insertBefore line text => exact (insertBefore_atomic s line text).reply _
  | remove line => exact (remove_atomic s line).reply _
  | layout kind => exact (layout_atomic h kind).reply _
  | segments kind => exact (segments_atomic h kind).reply _
  | collapse start stop => exact (collapse_atomic hc start stop).reply _
  | expand line deep => exact absurd rfl (hop line deep)
  | collapseSegment segment => exact (collapseSegment_atomic hc segment).reply _
  | collapseBlocks kind => exact (collapseBlocks_atomic h kind).reply _
  | expandAll => exact (expandAll_atomic h).reply _
  | indentUnits line => exact (indentUnits_atomic s line).reply _
  | indentLine line caret => exact (indentLine_atomic s line caret).reply _

/-- **A refused operation leaves a session with all lines up to date as it was, unless it was to expand a line of the
document.** Such a line hides nothing, and it is marked as one to be analysed before that is found out; nothing else is
touched. -/
theorem failed_unchanged_iff (h : Reachable s) (hc : s.Clean) {op : Op} {error : EditError}
    (hf : (s.perform op).1 = .error error) :
    (((s.step op).document = s.document ∧ (s.step op).table = s.table ∧ (s.step op).folds = s.folds) ↔
        ∀ line deep, op = .expand line deep → line ∉ s.document.order) ∧
      ((∀ line deep, op = .expand line deep → line ∉ s.document.order) → s.step op = s) ∧
      ∀ line deep, op = .expand line deep → line ∈ s.document.order →
        error = .notCollapsed line ∧ s.step op = { s with table := s.table.markDirty line } := by
  have hmarked : ∀ line deep, op = .expand line deep → line ∈ s.document.order →
      error = .notCollapsed line ∧ s.step op = { s with table := s.table.markDirty line } := by
    rintro line deep rfl hl
    rcases expand_failed h.wellFormed (reply_error_iff.1 hf) with ⟨hout, -, -⟩ | ⟨-, hmark⟩
    · exact absurd hl hout
    · exact hmark
  have hsame : (∀ line deep, op = .expand line deep → line ∉ s.document.order) → s.step op = s := by
    intro hout
    by_cases hop : ∃ line deep, op = .expand line deep
    · obtain ⟨line, deep, rfl⟩ := hop
      rcases expand_failed h.wellFormed (reply_error_iff.1 hf) with ⟨-, -, hafter⟩ | ⟨hl, -, -⟩
      · exact hafter
      · exact absurd hl (hout line deep rfl)
    · exact perform_atomic h hc (fun line deep hline => hop ⟨line, deep, hline⟩) error hf
  refine ⟨⟨?_, fun hout => by rw [hsame hout]; exact ⟨rfl, rfl, rfl⟩⟩, hsame, hmarked⟩
  -- a mark on a line that was up to date is a change of the table
  rintro ⟨-, htable, -⟩ line deep hop hl
  have hdirty : (s.step op).table.isDirty line = true := by
    rw [(hmarked line deep hop hl).2]
    simp only [LineTable.isDirty, LineTable.markDirty, LineTable.get?_insert, if_true, Option.all_some]
  rw [htable, hc line hl] at hdirty
  cases hdirty

/-- a session of two lines without rules or delimiters, both analysed -/
def twoLines : Session := (start ⟨"plain", [], [], []⟩ (.ofText "a\nb".toList)).step .rehighlight

/-- the first of two lines hides nothing, and asked to show what it hides it is marked; a line that is not there is
not -/
theorem failed_unchanged_iff_two_lines :
    (¬ ((twoLines.step (.expand ⟨0⟩ false)).document = twoLines.document ∧
          (twoLines.step (.expand ⟨0⟩ false)).table = twoLines.table ∧
          (twoLines.step (.expand ⟨0⟩ false)).folds = twoLines.folds)) ∧
      twoLines.step (.expand ⟨7⟩ false) = twoLines := by
  have hreach : Reachable twoLines := .step .rehighlight (.start _ (.ofText _))
  have hclean : ∀ id ∈ twoLines.document.order, twoLines.table.isDirty id = false := by decide
  have hflat : (twoLines.perform (.expand ⟨0⟩ false)).1 = .error (.notCollapsed ⟨0⟩) := by rfl
  have hunknown : (twoLines.perform (.expand ⟨7⟩ false)).1 = .error (.unknownLine ⟨7⟩) := by rfl
  constructor
  · intro hsame
    exact (failed_unchanged_iff hreach hclean hflat).1.1 hsame ⟨0⟩ false rfl (by decide)
  · apply (failed_unchanged_iff hreach hclean hunknown).2.1
    rintro line deep hop
    cases hop
    decide

/-- the line is up to date, the answer is an error, and the line has to be analysed -/
theorem failed_expand_marks :
    (∀ id ∈ twoLines.document.order, twoLines.table.isDirty id = false) ∧
      (twoLines.perform (.expand ⟨0⟩ false)).1 = .error (.notCollapsed ⟨0⟩) ∧
      (twoLines.step (.expand ⟨0⟩ false)).table.isDirty ⟨0⟩ = true := by
  decide

end Linewise.Session
