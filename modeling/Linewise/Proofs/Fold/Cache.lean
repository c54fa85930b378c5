/-
Layouts that are kept are never stale.

A layout is built from what folding sees of each row (`Row.foldKey`). A move leaves all layouts and all of that as they are,
or drops all layouts, or builds one anew (`act_refreshes`); so a layout that is kept is the one that would be built now
(`Reachable.current`). Most moves drop the layouts outright; analysing a line keeps them exactly if the line is seen the
same as before, and passing over other lines keeps them because it changes nothing until lines are analysed.
-/
import Linewise.Proofs.Hidden.Texts

namespace Linewise

/-- what folding sees of a row: its line and length, the tallies of all it holds, whether it is passed over, whether it is
collapsed, and how much it hides -/
def Row.foldKey (r : Row) : LineId × Nat × Tallies × Bool × Bool × Nat :=
  (r.id, Text.width r.text, r.state.totalTallies, r.state.ignored, r.state.isCollapsed, r.state.hiddenCount)

/-! ## Rows that folding cannot tell apart -/

namespace Row

theorem foldKey_handed (range : RuleId) (r : Row) : (r.handed range).foldKey = r.foldKey := by
  unfold handed
  split_ifs <;> rfl

/-- a line analysed again is seen the same if its tallies and its being passed over are the same -/
theorem foldKey_analyzed {g : Grammar} {ignores : IgnoreRule} {incoming : RuleId} {r : Row}
    (ht : r.state.tallies = (r.analyzed g ignores incoming).state.tallies)
    (hi : r.state.ignored = (r.analyzed g ignores incoming).state.ignored) :
    (r.analyzed g ignores incoming).foldKey = r.foldKey := by
  have htotal : (r.analyzed g ignores incoming).state.totalTallies = r.state.totalTallies := by
    unfold LineState.totalTallies
    rw [← ht]
    simp only [analyzed]
    cases r.state.snapshot <;> rfl
  have hcollapsed : (r.analyzed g ignores incoming).state.isCollapsed = r.state.isCollapsed := by
    simp only [analyzed, LineState.isCollapsed, Option.isSome_map]
  have hcount : (r.analyzed g ignores incoming).state.hiddenCount = r.state.hiddenCount := by
    simp only [analyzed, LineState.hiddenCount, Option.map_map]
    congr 2
    funext snapshot
    simp only [Function.comp, Snapshot.hiddenCount_eq]
    rfl
  simp only [foldKey, htotal, ← hi, hcollapsed, hcount]
  rfl

end Row

theorem foldKey_handTo (range : RuleId) (rows : List Row) :
    (handTo range rows).map Row.foldKey = rows.map Row.foldKey := by
  cases rows with
  | nil => rfl
  | cons r rows => simp only [handTo, List.modifyHead_cons, List.map_cons, Row.foldKey_handed]

/-- the lines as folding sees them depend on the keys of the rows only -/
theorem foldLinesFrom_congr {s t : Sheet} (kind offset : Nat) (hs : s.WellFormed) (ht : t.WellFormed)
    {ids ids' : List LineId} (hids : ∀ id ∈ ids, id ∈ s.document.order)
    (hids' : ∀ id ∈ ids', id ∈ t.document.order)
    (h : (ids.map s.row).map Row.foldKey = (ids'.map t.row).map Row.foldKey) :
    s.foldLinesFrom kind offset ids = t.foldLinesFrom kind offset ids' := by
  induction ids generalizing ids' offset with
  | nil =>
    cases ids' with
    | nil => rfl
    | cons id ids' => simp at h
  | cons id ids ih =>
    cases ids' with
    | nil => simp at h
    | cons id' ids' =>
      rw [List.forall_mem_cons] at hids hids'
      simp only [List.map_cons, List.cons.injEq] at h
      obtain ⟨hkey, hrest⟩ := h
      simp only [Row.foldKey, Sheet.row, Prod.mk.injEq] at hkey
      obtain ⟨rfl, hwidth, htallies, hignored, hcollapsed, hcount⟩ := hkey
      have hget := LineTable.get?_eq_some_entry s.table ((hs.table id).2 hids.1)
      have hget' := LineTable.get?_eq_some_entry t.table ((ht.table id).2 hids'.1)
      simp only [Sheet.foldLinesFrom, hget, hget', Option.getD_some, hwidth, htallies, hignored, hcollapsed, hcount,
        ih _ hids.2 hids'.2 hrest]

theorem foldLines_congr {s t : Sheet} (hs : s.WellFormed) (ht : t.WellFormed)
    (h : s.rows.map Row.foldKey = t.rows.map Row.foldKey) (kind : Nat) : s.foldLines kind = t.foldLines kind :=
  foldLinesFrom_congr kind 0 hs ht (fun _ hid => hid) (fun _ hid => hid) h

namespace Session

variable {s : Session}

/-- every layout that is kept is the one that would be built now -/
def Current (s : Session) : Prop :=
  ∀ kind layout, s.folds[kind]? = some (some layout) → layout = Layout.build (s.foldLines kind)

/-- all layouts are dropped, or they are kept and folding sees no difference -/
def Refreshes (s t : Session) : Prop :=
  (t.folds = s.folds.map fun _ => none) ∨ t.folds = s.folds ∧ t.rows.map Row.foldKey = s.rows.map Row.foldKey

theorem Refreshes.refl (s : Session) : Refreshes s s := Or.inr ⟨rfl, rfl⟩

theorem Refreshes.current {t : Session} (h : Refreshes s t) (hs : s.toSheet.WellFormed) (ht : t.toSheet.WellFormed)
    (hc : s.Current) : t.Current := by
  intro kind layout hl
  rcases h with hdropped | ⟨hkept, hkeys⟩
  · rw [hdropped, List.getElem?_map] at hl
    obtain ⟨_, _, hnone⟩ := Option.map_eq_some_iff.1 hl
    cases hnone
  · rw [hkept] at hl
    rw [hc kind layout hl, foldLines_congr hs ht hkeys.symm kind]

/-! ## What moves do to layouts -/

theorem analyze_refreshes (h : s.toSheet.WellFormed) (line : LineId) : Refreshes s (s.act (.analyze line)) := by
  by_cases hl : line ∈ s.document.order
  · obtain ⟨above, below, ho⟩ := List.append_of_mem hl
    have hfolds : (s.act (.analyze line)).folds =
        if (s.row line).state.tallies ≠ (s.analyzed line (s.document.textOf line)).tallies ∨
          (s.row line).state.ignored ≠ (s.analyzed line (s.document.textOf line)).ignored then s.folds.map fun _ => none
        else s.folds := by
      simp only [act, analyzeLine, Document.text?_eq_some h.document hl, (handOver_eq _ _ _).2.2, (store_eq _ _ _).2.2]
      rfl
    rw [analyzed_eq h ho] at hfolds
    split_ifs at hfolds with hchanged
    · exact Or.inl hfolds
    · refine Or.inr ⟨hfolds, ?_⟩
      simp only [ne_eq, not_or, not_not] at hchanged
      rw [act, analyze_rows h ho, Sheet.rows_of_split ho]
      simp only [List.map_append, List.map_cons, Row.foldKey_analyzed hchanged.1 hchanged.2, foldKey_handTo]
  · rw [act_unknown h rfl hl]
    exact .refl s

theorem expand_refreshes (h : s.toSheet.WellFormed) (line : LineId) (deep : Bool) :
    Refreshes s (s.act (.expand line deep)) := by
  by_cases hhides : line ∈ s.document.order ∧ (s.row line).state.snapshot ≠ none
  · obtain ⟨hl, hs⟩ := hhides
    obtain ⟨snapshot, hs⟩ := Option.ne_none_iff_exists'.1 hs
    obtain ⟨above, below, ho⟩ := List.append_of_mem hl
    obtain ⟨ids, hok, _⟩ := expand_rows h ho deep hs
    left
    simp only [act]
    unfold expand at hok ⊢
    split
    · rename_i heq
      rw [heq] at hok
      cases hok
    · exact dropFolds_folds _
  · have hrefused : line ∉ s.document.order ∨ (s.row line).state.snapshot = none := by tauto
    obtain ⟨error, herror⟩ := expand_refused h deep hrefused
    by_cases hl : line ∈ s.document.order
    · obtain ⟨above, below, ho⟩ := List.append_of_mem hl
      refine Or.inr ⟨?_, ?_⟩
      · simp only [act]
        unfold expand at herror ⊢
        split
        · rfl
        · rename_i heq
          rw [heq] at herror
          cases herror
      · have hflat := hrefused.resolve_left fun hout => hout hl
        rw [act, (expand_flat_rows h ho deep hflat).2, Sheet.rows_of_split ho]
        simp only [List.map_append, List.map_cons]
        rfl
    · rw [act_unknown h rfl hl]
      exact .refl s

theorem hide_refreshes (s : Session) (start stop : LineId) : Refreshes s (s.act (.hide start stop)) := by
  by_cases hok : ∃ first last, s.document.row? start = some first ∧ s.document.row? stop = some last ∧ first < last
  · obtain ⟨first, last, hf, hl, hlt⟩ := hok
    left
    have hle : ¬ last ≤ first := Nat.not_le.2 hlt
    simp only [act, collapseClean, Sheet.collapse, hf, hl, if_neg hle]
    exact dropFolds_folds _
  · have hs : s.act (.hide start stop) = s :=
      collapseClean_refused fun first last hf hl hlt => hok ⟨first, last, hf, hl, hlt⟩
    rw [hs]
    exact .refl s

/-- **A move that does not build a layout drops all of them, or keeps them and what they are built from.** -/
theorem act_refreshes (h : s.toSheet.WellFormed) {m : Move} (hm : ∀ kind, m ≠ .keepLayout kind) :
    Refreshes s (s.act m) := by
  cases m with
  | analyze line => exact analyze_refreshes h line
  | setText line text =>
    simp only [act, setText]
    split
    · exact .refl s
    · exact Or.inl (dropFolds_folds _)
  | insertAfter line text =>
    simp only [act, insertAfter]
    cases line with
    | none => exact Or.inl (dropFolds_folds _)
    | some line =>
      simp only
      split
      · exact .refl s
      · exact Or.inl (dropFolds_folds _)
  | insertBefore line text =>
    simp only [act, insertBefore]
    split
    · exact .refl s
    · exact Or.inl (dropFolds_folds _)
  | remove line =>
    simp only [act, remove]
    split
    · exact .refl s
    · exact Or.inl (dropFolds_folds _)
  | hide start stop => exact hide_refreshes s start stop
  | expand line deep => exact expand_refreshes h line deep
  | keepLayout kind => exact absurd rfl (hm kind)
  | ignore rule =>
    -- lines are to be analysed again, but are seen as before until then
    refine Or.inr ⟨rfl, ?_⟩
    rw [act, (ignore_rows h rule).2, List.map_map]
    rfl
  | configure settings => exact .refl s
  | subscribe => exact .refl s
  | drain => exact .refl s
  | log notices => exact .refl s

theorem keepLayout_current (hc : s.Current) (kind : Nat) : (s.keepLayout kind).Current := by
  intro other layout hl
  have hlines : (s.keepLayout kind).foldLines other = s.foldLines other := rfl
  rw [hlines]
  simp only [keepLayout, List.getElem?_set] at hl
  split_ifs at hl with hsame
  · subst hsame
    simpa using hl.symm
  · exact hc other layout hl

theorem act_current (h : s.WellFormed) (hc : s.Current) {m : Move} (ha : s.Allows m) : (s.act m).Current := by
  by_cases hm : ∃ kind, m = .keepLayout kind
  · obtain ⟨kind, rfl⟩ := hm
    exact keepLayout_current hc kind
  · have hm' : ∀ kind, m ≠ .keepLayout kind := fun kind hk => hm ⟨kind, hk⟩
    exact (act_refreshes h.sheet hm').current h.sheet (act_effect h.sheet m ha).2 hc

theorem start_current (grammar : Grammar) (document : Document) : (start grammar document).Current := by
  intro kind layout hl
  simp only [start, noFolds, List.getElem?_replicate] at hl
  split_ifs at hl
  cases hl

theorem Reachable.current (h : Reachable s) : s.Current :=
  (h.invariant (fun grammar document _ => start_current grammar document) fun _ _ hw hc ha => act_current hw hc ha).2

/-- the layout of a kind of delimiter is built from the lines brought up to date, whether or not one was kept -/
theorem layout_answer (h : Reachable s) {kind : Nat} (hk : kind < s.grammar.delimiters.length) :
    (s.layout kind).1 = .ok (Layout.build (s.rehighlight.2.foldLines kind)) := by
  have hre : Reachable s.rehighlight.2 := h.step .rehighlight
  have hlen := hre.wellFormed.folds
  have hslot : s.rehighlight.2.folds[kind]? ≠ none := by
    rw [ne_eq, List.getElem?_eq_none_iff, hlen, (rehighlight_leads s).grammar]
    exact Nat.not_le.2 hk
  unfold layout
  simp only [if_pos hk, if_pos hlen]
  split
  · rename_i hnone
    exact absurd hnone hslot
  · rename_i layout hkept
    rw [hre.current kind layout hkept]
  · rfl

/-- asking for a layout brings the lines up to date and leaves them alone otherwise -/
theorem layout_sheet (h : s.WellFormed) {kind : Nat} (hk : kind < s.grammar.delimiters.length) :
    (s.layout kind).2.toSheet = s.rehighlight.2.toSheet := by
  have hlen := ((rehighlight_leads s).wellFormed h).folds
  unfold layout
  simp only [if_pos hk, if_pos hlen]
  split <;> rfl

/-- **The fold cache is never stale.** Whatever was done before, in whatever order layouts were asked for, the layout of a
kind of delimiter is the one built anew from the document and the line states, once these are up to date. -/
theorem layout_eq_build (h : Reachable s) {kind : Nat} (hk : kind < s.grammar.delimiters.length) :
    (s.layout kind).1 = .ok (Layout.build (s.rehighlight.2.foldLines kind)) ∧
      (s.layout kind).2.toSheet = s.rehighlight.2.toSheet :=
  ⟨layout_answer h hk, layout_sheet h.wellFormed hk⟩

/-- a layout asked for before and after the closing brace is taken out -/
theorem layout_eq_build_braces :
    let s := (start ⟨"braces", [], [.literal ['{'] ['}']], []⟩ (.ofText ['{', '\n', '}'])).run
      [.layout 0, .setText ⟨1⟩ []]
    Reachable s ∧ 0 < s.grammar.delimiters.length ∧
      (s.layout 0).1 = .ok (Layout.build (s.rehighlight.2.foldLines 0)) := by
  intro s
  have hs : Reachable s := ((Reachable.start _ (.ofText _)).step (.layout 0)).step (.setText ⟨1⟩ [])
  have hk : 0 < s.grammar.delimiters.length := by decide +kernel
  exact ⟨hs, hk, (layout_eq_build hs hk).1⟩

end Session

end Linewise
