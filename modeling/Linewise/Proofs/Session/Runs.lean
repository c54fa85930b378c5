/-
Runs of moves, and the sessions that can be reached.

`Leads ok s t`: moves that all satisfy `ok` lead from `s` to `t`. Each operation is such a run (`step_leads`); an operation
that edits no text is one without edits (`neutral_leads`). A property that moves preserve therefore holds of every
session that can be reached (`Reachable.invariant`), and no invariant has to look at an operation again.

`refreshAll_clean` is the step that makes collapsing allowed: lines analysed from the first to the last are clean
afterwards, for analysing a line makes no line above it dirty.
-/
import Linewise.Proofs.Session.Move

namespace Linewise

namespace Move

/-- whether a move is part of an operation that leaves the lines and their texts alone, hidden or not -/
def isNeutral : Move → Bool
  | analyze _ | hide _ _ | expand _ _ | keepLayout _ | log _ => true
  | _ => false

/-- whether it leaves even the ones that are hidden where they are -/
def isReading : Move → Bool
  | analyze _ | keepLayout _ | log _ => true
  | _ => false

/-- whether it only brings back hidden lines -/
def isOpening : Move → Bool
  | expand _ _ | log _ => true
  | _ => false

/-- the lines passed over after a move -/
def ignoresAfter (ignores : IgnoreRule) : Move → IgnoreRule
  | ignore rule => rule
  | _ => ignores

theorem isNeutral_of_isReading {m : Move} (h : m.isReading = true) : m.isNeutral = true := by
  cases m <;> first | rfl | cases h

theorem isNeutral_of_isOpening {m : Move} (h : m.isOpening = true) : m.isNeutral = true := by
  cases m <;> first | rfl | cases h

end Move

namespace Session

/-- the sheet is well formed, and there is a place for the layout of each kind of delimiter -/
structure WellFormed (s : Session) : Prop where
  sheet : s.toSheet.WellFormed
  folds : s.folds.length = s.grammar.delimiters.length

/-- moves of a certain kind lead from one session to another -/
inductive Leads (ok : Move → Prop) (s : Session) : Session → Prop where
  | refl : Leads ok s s
  | tail {t : Session} (m : Move) (h : Leads ok s t) (hm : ok m) (ha : t.Allows m) : Leads ok s (t.act m)

/-! ## What moves leave alone beside the sheet -/

/-- the grammar stays, and so does what is passed over but for a move that sets it; the layouts are all kept or all
dropped, or one more is kept -/
structure Keeps (m : Move) (s t : Session) : Prop where
  grammar : t.grammar = s.grammar
  ignores : t.ignores = m.ignoresAfter s.ignores
  folds : t.folds = s.folds ∨ (t.folds = s.folds.map fun _ => none) ∨ ∃ kind, m = .keepLayout kind

@[simp] theorem dropFolds_grammar (s : Session) : s.dropFolds.grammar = s.grammar := by
  unfold dropFolds
  simp only
  split_ifs <;> rfl

@[simp] theorem dropFolds_ignores (s : Session) : s.dropFolds.ignores = s.ignores := by
  unfold dropFolds
  simp only
  split_ifs <;> rfl

@[simp] theorem dropFolds_folds (s : Session) : s.dropFolds.folds = s.folds.map fun _ => none := by
  unfold dropFolds
  simp only
  split_ifs <;> rfl

/-- handing a range on changes no more than the table and the log -/
theorem handOver_eq (s : Session) (id : LineId) (range : RuleId) :
    (s.handOver id range).2.grammar = s.grammar ∧ (s.handOver id range).2.ignores = s.ignores ∧
      (s.handOver id range).2.folds = s.folds := by
  unfold handOver
  repeat' split
  all_goals exact ⟨rfl, rfl, rfl⟩

/-- storing the state of a line drops the layouts if its tallies or its being passed over differ from before -/
theorem store_eq (s : Session) (id : LineId) (new : LineState) :
    (s.store id new).grammar = s.grammar ∧ (s.store id new).ignores = s.ignores ∧
      (s.store id new).folds =
        if (s.table.entry id).tallies ≠ new.tallies ∨ (s.table.entry id).ignored ≠ new.ignored then
          s.folds.map fun _ => none
        else s.folds := by
  unfold store
  simp only
  split_ifs <;> simp [notify]

namespace Keeps

variable {m : Move} {s t : Session}

theorem of_same (hm : m.ignoresAfter s.ignores = s.ignores) (hg : t.grammar = s.grammar) (hi : t.ignores = s.ignores)
    (hf : t.folds = s.folds) : Keeps m s t := ⟨hg, hi.trans hm.symm, Or.inl hf⟩

theorem of_dropFolds (hm : m.ignoresAfter s.ignores = s.ignores) (hg : t.grammar = s.grammar)
    (hi : t.ignores = s.ignores) (hf : t.folds = s.folds) : Keeps m s t.dropFolds := by
  refine ⟨(dropFolds_grammar t).trans hg, ((dropFolds_ignores t).trans hi).trans hm.symm, Or.inr (Or.inl ?_)⟩
  rw [dropFolds_folds, hf]

end Keeps

theorem act_keeps (s : Session) (m : Move) : Keeps m s (s.act m) := by
  cases m with
  | analyze line =>
    simp only [act, analyzeLine]
    split
    · exact .of_same rfl rfl rfl rfl
    · rename_i text _
      set new := s.analyzed line text with hnew
      obtain ⟨hg, hi, hf⟩ := handOver_eq ((s.log (s.analysisNotices line new)).store line new) line new.outgoing
      obtain ⟨hg', hi', hf'⟩ := store_eq (s.log (s.analysisNotices line new)) line new
      refine ⟨hg.trans hg', hi.trans hi', ?_⟩
      rw [hf, hf']
      split_ifs
      · exact Or.inr (Or.inl rfl)
      · exact Or.inl rfl
  | setText line text =>
    simp only [act, setText]
    split
    · exact .of_same rfl rfl rfl rfl
    · exact .of_dropFolds rfl rfl rfl rfl
  | insertAfter line text =>
    simp only [act, insertAfter]
    cases line with
    | none => exact .of_dropFolds rfl rfl rfl rfl
    | some line =>
      simp only
      split
      · exact .of_same rfl rfl rfl rfl
      · exact .of_dropFolds rfl rfl rfl rfl
  | insertBefore line text =>
    simp only [act, insertBefore]
    split
    · exact .of_same rfl rfl rfl rfl
    · exact .of_dropFolds rfl rfl rfl rfl
  | remove line =>
    simp only [act, remove]
    split
    · exact .of_same rfl rfl rfl rfl
    · exact .of_dropFolds rfl rfl rfl rfl
  | hide start stop =>
    simp only [act, collapseClean]
    split
    · exact .of_same rfl rfl rfl rfl
    · exact .of_dropFolds rfl rfl rfl rfl
  | expand line deep =>
    simp only [act, expand]
    split
    · exact .of_same rfl rfl rfl rfl
    · exact .of_dropFolds rfl rfl rfl rfl
  | keepLayout kind => exact ⟨rfl, rfl, Or.inr (Or.inr ⟨kind, rfl⟩)⟩
  | ignore rule => exact ⟨rfl, rfl, Or.inl rfl⟩
  | configure settings => exact .of_same rfl rfl rfl rfl
  | subscribe => exact .of_same rfl rfl rfl rfl
  | drain => exact .of_same rfl rfl rfl rfl
  | log notices => exact .of_same rfl rfl rfl rfl

theorem act_grammar (s : Session) (m : Move) : (s.act m).grammar = s.grammar := (act_keeps s m).grammar

theorem act_ignores (s : Session) (m : Move) : (s.act m).ignores = m.ignoresAfter s.ignores := (act_keeps s m).ignores

theorem act_wellFormed {s : Session} (h : s.WellFormed) {m : Move} (ha : s.Allows m) : (s.act m).WellFormed := by
  refine ⟨(act_effect h.sheet m ha).2, ?_⟩
  rw [act_grammar, ← h.folds]
  rcases (act_keeps s m).folds with hf | hf | ⟨kind, rfl⟩
  · rw [hf]
  · rw [hf, List.length_map]
  · simp [act, keepLayout]

namespace Leads

variable {ok ok' : Move → Prop} {s t u : Session}

theorem single {m : Move} (hm : ok m) (ha : s.Allows m) : Leads ok s (s.act m) := .tail m .refl hm ha

theorem trans (hst : Leads ok s t) (htu : Leads ok t u) : Leads ok s u := by
  induction htu with
  | refl => exact hst
  | tail m _ hm ha ih => exact .tail m ih hm ha

theorem mono (hok : ∀ m, ok m → ok' m) (h : Leads ok s t) : Leads ok' s t := by
  induction h with
  | refl => exact .refl
  | tail m _ hm ha ih => exact .tail m ih (hok m hm) ha

/-- what moves preserve holds after a run of them -/
theorem invariant {P : Session → Prop} (hstep : ∀ s m, s.WellFormed → P s → ok m → s.Allows m → P (s.act m))
    (h : Leads ok s t) (hs : s.WellFormed) (hp : P s) : t.WellFormed ∧ P t := by
  induction h with
  | refl => exact ⟨hs, hp⟩
  | @tail t m _ hm ha ih => exact ⟨act_wellFormed ih.1 ha, hstep t m ih.1 ih.2 hm ha⟩

theorem neutral (h : Leads (·.isReading) s t) : Leads (·.isNeutral) s t :=
  h.mono fun _ hm => Move.isNeutral_of_isReading hm

theorem opening (h : Leads (·.isOpening) s t) : Leads (·.isNeutral) s t :=
  h.mono fun _ hm => Move.isNeutral_of_isOpening hm

theorem wellFormed (h : Leads ok s t) (hs : s.WellFormed) : t.WellFormed :=
  (h.invariant (P := fun _ => True) (fun _ _ _ _ _ _ => trivial) hs trivial).1

theorem grammar (h : Leads ok s t) : t.grammar = s.grammar := by
  induction h with
  | refl => rfl
  | @tail t m _ _ _ ih => rw [act_grammar, ih]

theorem ignores (h : Leads (·.isReading) s t) : t.ignores = s.ignores := by
  induction h with
  | refl => rfl
  | @tail t m _ hm _ ih =>
    rw [act_ignores, ← ih]
    cases m <;> first | rfl | cases hm

end Leads

/-! ## Lines brought up to date -/

theorem analyzeLine_document (s : Session) (id : LineId) : (s.analyzeLine id).2.document = s.document := by
  unfold analyzeLine
  cases s.document.text? id with
  | none => rfl
  | some text => simp only [handOver_toSheet, store_toSheet, log_toSheet]

theorem refresh_document (s : Session) (id : LineId) : (s.refresh id).2.document = s.document := by
  unfold refresh
  split_ifs
  · exact analyzeLine_document s id
  · rfl

theorem refreshAll_document (s : Session) (ids : List LineId) : (s.refreshAll ids).2.document = s.document := by
  induction ids generalizing s with
  | nil => rfl
  | cons id ids ih => exact (ih (s.refresh id).2).trans (refresh_document s id)

/-- analysing a line makes it clean, and leaves the lines above it as they are -/
theorem analyze_clean {s : Session} (h : s.toSheet.WellFormed) {above below : List LineId} {id : LineId}
    (ho : s.document.order = above ++ id :: below) :
    (s.analyzeLine id).2.table.isDirty id = false ∧
      ∀ x ∈ above, (s.analyzeLine id).2.table.isDirty x = s.table.isDirty x := by
  set t := (s.analyzeLine id).2 with ht
  have hrows := analyze_rows h ho
  rw [← ht, Sheet.rows, ht, analyzeLine_document, ← ht, ho, List.map_append, List.map_cons] at hrows
  obtain ⟨habove, hrest⟩ := List.append_inj hrows (by simp)
  have hid := (List.cons.inj hrest).1
  refine ⟨?_, ?_⟩
  · have hs := congrArg Row.state hid
    rw [LineTable.isDirty_eq]
    simp only [Sheet.row, Row.analyzed] at hs
    rw [hs]
  · intro x hx
    have hs := congrArg Row.state (List.map_inj_left.1 habove x hx)
    rw [LineTable.isDirty_eq, LineTable.isDirty_eq]
    exact congrArg LineState.dirty hs

theorem refresh_leads (s : Session) (id : LineId) : Leads (·.isReading) s (s.refresh id).2 := by
  unfold refresh
  split_ifs
  · exact Leads.single (m := .analyze id) rfl trivial
  · exact Leads.refl

theorem refreshAll_leads (s : Session) (ids : List LineId) : Leads (·.isReading) s (s.refreshAll ids).2 := by
  induction ids generalizing s with
  | nil => exact Leads.refl
  | cons id ids ih => exact (refresh_leads s id).trans (ih (s.refresh id).2)

theorem refresh_clean {s : Session} (h : s.toSheet.WellFormed) {above below : List LineId} {id : LineId}
    (ho : s.document.order = above ++ id :: below) :
    (s.refresh id).2.table.isDirty id = false ∧
      ∀ x ∈ above, (s.refresh id).2.table.isDirty x = s.table.isDirty x := by
  unfold refresh
  by_cases hd : s.table.isDirty id = true
  · rw [if_pos hd]
    exact analyze_clean h ho
  · rw [if_neg hd]
    exact ⟨by simpa using hd, fun _ _ => rfl⟩

/-- lines analysed one after the other are clean afterwards -/
theorem refreshAll_clean {s : Session} (h : s.WellFormed) {above todo below : List LineId}
    (ho : s.document.order = above ++ todo ++ below) :
    (∀ id ∈ todo, (s.refreshAll todo).2.table.isDirty id = false) ∧
      ∀ x ∈ above, (s.refreshAll todo).2.table.isDirty x = s.table.isDirty x := by
  -- the lines done so far join those above, which the rest of the pass leaves alone
  induction todo generalizing s above with
  | nil => exact ⟨fun _ hid => absurd hid List.not_mem_nil, fun _ _ => rfl⟩
  | cons id todo ih =>
    have ho' : s.document.order = above ++ id :: (todo ++ below) := by rw [ho]; simp
    obtain ⟨hid, habove⟩ := refresh_clean h.sheet ho'
    have hnext : (s.refresh id).2.document.order = (above ++ [id]) ++ todo ++ below := by
      rw [refresh_document, ho]
      simp
    obtain ⟨hrest, hdone⟩ := ih ((refresh_leads s id).wellFormed h) hnext
    refine ⟨?_, ?_⟩
    · intro x hx
      rcases List.mem_cons.1 hx with rfl | hx
      · exact (hdone x (by simp)).trans hid
      · exact hrest x hx
    · intro x hx
      exact (hdone x (List.mem_append_left _ hx)).trans (habove x hx)

theorem rehighlight_document (s : Session) : s.rehighlight.2.document = s.document := by
  unfold rehighlight
  simp only
  split_ifs <;> exact refreshAll_document s _

theorem rehighlight_leads (s : Session) : Leads (·.isReading) s s.rehighlight.2 := by
  unfold rehighlight
  simp only
  split_ifs
  · exact (refreshAll_leads s _).tail (.log _) rfl trivial
  · exact refreshAll_leads s _

/-- **Bringing the highlighting up to date leaves no line dirty.** -/
theorem rehighlight_clean {s : Session} (h : s.WellFormed) :
    ∀ id ∈ s.document.order, s.rehighlight.2.table.isDirty id = false := by
  have ho : s.document.order = [] ++ s.document.order ++ [] := by simp
  have hclean := (refreshAll_clean h ho).1
  unfold rehighlight
  simp only
  split_ifs <;> exact hclean

theorem rehighlight_rows_clean {s : Session} (h : s.WellFormed) :
    ∀ r ∈ s.rehighlight.2.rows, r.state.dirty = false := by
  intro r hr
  obtain ⟨id, hid, rfl⟩ := List.mem_map.1 hr
  have hclean := rehighlight_clean h id (rehighlight_document s ▸ hid)
  rwa [LineTable.isDirty_eq] at hclean

/-! ## Operations as runs -/

theorem layout_leads {s : Session} (h : s.WellFormed) (kind : Nat) : Leads (·.isReading) s (s.layout kind).2 := by
  have hre := rehighlight_leads s
  have hf := (hre.wellFormed h).folds
  unfold layout
  split_ifs with hk
  · simp only [if_pos hf]
    split
    · exact hre
    · exact hre
    · exact (hre.tail (.keepLayout kind) rfl trivial).tail (.log _) rfl trivial
  · exact Leads.refl

/-- lines may be hidden once all lines are clean -/
theorem allows_hide_of_clean {s : Session} (hc : ∀ id ∈ s.document.order, s.table.isDirty id = false)
    (start stop : LineId) : s.Allows (.hide start stop) := by
  intro first last _ _ id hid
  exact hc id (List.mem_of_mem_drop (List.mem_of_mem_take hid))

theorem collapse_leads {s : Session} (h : s.WellFormed) (start stop : LineId) :
    Leads (·.isNeutral) s (s.collapse start stop).2 := by
  refine (rehighlight_leads s).neutral.tail (.hide start stop) rfl (allows_hide_of_clean ?_ start stop)
  rw [rehighlight_document]
  exact rehighlight_clean h

theorem collapseSegment_leads {s : Session} (h : s.WellFormed) (segment : Segment) :
    Leads (·.isNeutral) s (s.collapseSegment segment).2 := by
  unfold collapseSegment
  split
  · exact Leads.refl
  · exact Leads.refl
  · exact collapse_leads h _ _

/-- lines may be hidden once they were analysed one after the other -/
theorem allows_hide_of_refreshed {s : Session} (h : s.WellFormed) {start stop : LineId} {first last : Nat}
    (hf : s.document.row? start = some first) (hl : s.document.row? stop = some last) :
    (s.refreshAll ((s.document.order.drop first).take (last - first + 1))).2.Allows (.hide start stop) := by
  set todo := (s.document.order.drop first).take (last - first + 1) with htodo
  have ho : s.document.order =
      s.document.order.take first ++ todo ++ (s.document.order.drop first).drop (last - first + 1) := by
    rw [htodo, List.append_assoc, List.take_append_drop, List.take_append_drop]
  intro first' last' hf' hl' id hid
  rw [refreshAll_document] at hf' hl' hid
  cases hf.symm.trans hf'
  cases hl.symm.trans hl'
  exact (refreshAll_clean h ho).1 id hid

theorem collapseEach_leads {s : Session} (h : s.WellFormed) (holders : Holders) (last : Option Segment)
    (segments : List Segment) : Leads (·.isNeutral) s (s.collapseEach holders last segments).2 := by
  induction segments generalizing s holders last with
  | nil => exact Leads.refl
  | cons segment rest ih =>
    unfold collapseEach
    split_ifs
    · exact ih h holders last
    · split
      · exact Leads.refl
      · exact ih h holders last
      · split
        · rename_i start stop _ _ _ first final hf hl
          set rows := (s.document.order.drop first).take (final - first + 1) with hrows
          have hhide : Leads (·.isNeutral) s ((s.refreshAll rows).2.collapseClean start stop).2 :=
            (refreshAll_leads s rows).neutral.tail (.hide start stop) rfl (allows_hide_of_refreshed h hf hl)
          simp only
          split
          · rename_i heq
            rwa [heq] at hhide
          · rename_i heq
            rw [heq] at hhide
            exact hhide.trans (ih (hhide.wellFormed h) _ _)
        · exact ih h holders last

theorem collapseBlocks_leads {s : Session} (h : s.WellFormed) (kind : Nat) :
    Leads (·.isNeutral) s (s.collapseBlocks kind).2 := by
  have hl : Leads (·.isNeutral) s (s.segments kind).2 := (layout_leads h kind).neutral
  unfold collapseBlocks
  split
  · rename_i heq
    rwa [heq] at hl
  · rename_i segments t heq
    rw [heq] at hl
    have heach := collapseEach_leads (hl.wellFormed h) [] none
      (segments.filter fun segment => !segment.has .collapsed && !segment.isEmpty)
    simp only
    split
    · rename_i heq'
      rw [heq'] at heach
      exact hl.trans heach
    · rename_i heq'
      rw [heq'] at heach
      exact (hl.trans heach).tail (.log _) rfl trivial

theorem expandFrom_leads (s : Session) (fuel : Nat) (line : Option LineId) :
    Leads (·.isOpening) s (s.expandFrom fuel line).2 := by
  induction fuel generalizing s line with
  | zero => exact Leads.refl
  | succ fuel ih =>
    cases line with
    | none => exact Leads.refl
    | some id =>
      unfold expandFrom
      split_ifs
      · have hone : Leads (·.isOpening) s (s.expand id false).2 := Leads.single (m := .expand id false) rfl trivial
        split
        · rename_i heq
          rwa [heq] at hone
        · rename_i heq
          rw [heq] at hone
          exact hone.trans (ih _ _)
      · exact ih s _

theorem expandAll_leads (s : Session) : Leads (·.isOpening) s s.expandAll.2 := by
  have hfrom := expandFrom_leads s s.expandedCount s.document.first?
  unfold expandAll
  split
  · rename_i heq
    rwa [heq] at hfrom
  · rename_i heq
    rw [heq] at hfrom
    exact hfrom.tail (.log _) rfl trivial

theorem indentUnits_leads (s : Session) (line : LineId) : Leads (·.isReading) s (s.indentUnits line).2 := by
  unfold indentUnits
  split_ifs
  · exact (rehighlight_leads s).tail (.log _) rfl trivial
  · exact Leads.refl

/-- indenting a line brings the highlighting up to date, and then at most rewrites that line -/
theorem indentLine_leads {s : Session} (h : s.WellFormed) (line : LineId) (caret : Option Nat) :
    ∃ t, Leads (·.isReading) s t ∧
      ((s.indentLine line caret).2 = t ∨ ∃ text, (s.indentLine line caret).2 = t.act (.setText line text)) := by
  have hunits := indentUnits_leads s line
  refine ⟨(s.indentUnits line).2, hunits, ?_⟩
  unfold indentLine
  cases hu : s.indentUnits line with
  | mk answer t =>
    rw [hu] at hunits
    cases answer with
    | error error => exact Or.inl rfl
    | ok units =>
      simp only
      split_ifs with hk
      · exact Or.inl rfl
      · unfold Document.applyIndent?
        cases ht : t.document.text? line with
        | none => exact Or.inl rfl
        | some text =>
          simp only
          by_cases hc : (t.settings.reindent text units != text) = true
          · rw [if_pos hc, if_pos hc]
            have hline : line ∈ t.document.order := by
              by_contra hout
              rw [Document.text?_eq_none (hunits.wellFormed h).sheet.document hout] at ht
              cases ht
            obtain ⟨e, he, _⟩ :=
              Document.setText?_spec (hunits.wellFormed h).sheet.document hline (t.settings.reindent text units)
            refine Or.inr ⟨t.settings.reindent text units, ?_⟩
            simp only [act, setText, he, Option.getD_some]
          · rw [if_neg hc, if_neg hc]
            exact Or.inl rfl

end Session

/-- whether an operation leaves the lines and their texts alone, hidden or not -/
def Op.isNeutral : Op → Bool
  | setText _ _ | insertAfter _ _ | insertBefore _ _ | remove _ | indentLine _ _ => false
  | _ => true

/-- the moves that an operation is made of -/
def Op.Makes : Op → Move → Prop
  | setText line text, m => m = .setText line text
  | insertAfter line text, m => m = .insertAfter line text
  | insertBefore line text, m => m = .insertBefore line text
  | remove line, m => m = .remove line
  | indentLine line _, m => m.isReading = true ∨ ∃ text, m = .setText line text
  | _, m => m.isNeutral = true

theorem Op.makes_of_isNeutral {op : Op} {m : Move} (hop : op.isNeutral = true) (hm : m.isNeutral = true) :
    op.Makes m := by
  cases op <;> first | exact hm | cases hop

namespace Session

/-- **An operation that edits no text is a run of moves that edit none.** -/
theorem neutral_leads {s : Session} (h : s.WellFormed) {op : Op} (hop : op.isNeutral = true) :
    Leads (·.isNeutral) s (s.step op) := by
  cases op with
  | rehighlight => exact (rehighlight_leads s).neutral
  | highlightLine line =>
    simp only [step, perform, reply, highlightLine]
    split_ifs
    · exact Leads.single (m := .analyze line) rfl trivial
    · exact Leads.refl
  | styledSpans line =>
    simp only [step, perform, reply, styledSpans]
    split <;> exact (rehighlight_leads s).neutral
  | layout kind => exact (layout_leads h kind).neutral
  | segments kind => exact (layout_leads h kind).neutral
  | collapse start stop => exact collapse_leads h start stop
  | expand line deep => exact Leads.single (m := .expand line deep) rfl trivial
  | collapseSegment segment => exact collapseSegment_leads h segment
  | collapseBlocks kind => exact collapseBlocks_leads h kind
  | expandAll => exact (expandAll_leads s).opening
  | indentUnits line => exact (indentUnits_leads s line).neutral
  | _ => cases hop

/-- **Every operation is a run of the moves it is made of.** -/
theorem step_leads {s : Session} (h : s.WellFormed) (op : Op) : Leads op.Makes s (s.step op) := by
  by_cases hop : op.isNeutral = true
  · exact (neutral_leads h hop).mono fun _ hm => Op.makes_of_isNeutral hop hm
  · cases op with
    | setText line text => exact Leads.single (m := .setText line text) rfl trivial
    | insertAfter line text => exact Leads.single (m := .insertAfter line text) rfl trivial
    | insertBefore line text => exact Leads.single (m := .insertBefore line text) rfl trivial
    | remove line => exact Leads.single (m := .remove line) rfl trivial
    | indentLine line caret =>
      obtain ⟨t, ht, hs⟩ := indentLine_leads h line caret
      have ht' : Leads (Op.indentLine line caret).Makes s t := ht.mono fun _ hm => Or.inl hm
      have hstep : s.step (.indentLine line caret) = (s.indentLine line caret).2 := rfl
      rcases hs with hs | ⟨text, hs⟩
      · rw [hstep, hs]
        exact ht'
      · rw [hstep, hs]
        exact ht'.tail (.setText line text) (Or.inr ⟨text, rfl⟩) trivial
    | _ => exact absurd rfl hop

/-! ## Sessions that can be reached -/

/-- sessions that come about by operations, from one started on a document -/
inductive Reachable : Session → Prop where
  | start (grammar : Grammar) {document : Document} (h : document.Built) : Reachable (start grammar document)
  | withSettings {s : Session} (settings : IndentSettings) (h : Reachable s) : Reachable (s.withSettings settings)
  | withIgnoreRule {s : Session} (ignores : IgnoreRule) (h : Reachable s) : Reachable (s.withIgnoreRule ignores)
  | subscribe {s : Session} (h : Reachable s) : Reachable s.subscribe
  | drain {s : Session} (h : Reachable s) : Reachable s.drain.2.2
  | step {s : Session} (op : Op) (h : Reachable s) : Reachable (s.step op)

theorem start_wellFormed (grammar : Grammar) {document : Document} (h : document.WellFormed) :
    (start grammar document).WellFormed := by
  refine ⟨⟨h, ?_⟩, by simp [start, noFolds]⟩
  intro id
  simp only [start, LineTable.freshFor, LineTable.contains_insertAll, List.map_map, Function.comp_def, List.map_id_fun']
  simp [LineTable.contains, LineTable.get?]

theorem entry_insertAll_fresh {t : LineTable} {id : LineId} (h : t.entry id = .fresh) (ids : List LineId) :
    (t.insertAll (ids.map (·, .fresh))).entry id = .fresh := by
  induction ids generalizing t with
  | nil => exact h
  | cons first ids ih =>
    have hfirst : (t.insert first .fresh).entry id = .fresh := by
      rw [LineTable.entry_insert]
      split_ifs
      · rfl
      · exact h
    exact ih hfirst

/-- no line was analysed at the start -/
theorem start_rows (grammar : Grammar) (document : Document) :
    (start grammar document).rows = document.order.map fun id => .new id (document.textOf id) := by
  apply List.map_congr_left
  intro id _
  have hentry : (start grammar document).table.entry id = .fresh := entry_insertAll_fresh rfl document.order
  simp only [Sheet.row, hentry, Row.new]
  rfl

/-- every session that can be reached comes about by moves, from one just started -/
theorem Reachable.leads {s : Session} (h : Reachable s) :
    ∃ grammar document, document.Built ∧ Leads (fun _ => True) (Session.start grammar document) s := by
  induction h with
  | start grammar hd => exact ⟨grammar, _, hd, .refl⟩
  | withSettings settings _ ih =>
    obtain ⟨grammar, document, hd, hl⟩ := ih
    exact ⟨grammar, document, hd, hl.tail (.configure settings) trivial trivial⟩
  | withIgnoreRule ignores _ ih =>
    obtain ⟨grammar, document, hd, hl⟩ := ih
    exact ⟨grammar, document, hd, hl.tail (.ignore ignores) trivial trivial⟩
  | subscribe _ ih =>
    obtain ⟨grammar, document, hd, hl⟩ := ih
    exact ⟨grammar, document, hd, hl.tail .subscribe trivial trivial⟩
  | drain _ ih =>
    obtain ⟨grammar, document, hd, hl⟩ := ih
    exact ⟨grammar, document, hd, hl.tail .drain trivial trivial⟩
  | step op _ ih =>
    obtain ⟨grammar, document, hd, hl⟩ := ih
    have hw := hl.wellFormed (start_wellFormed grammar hd.wellFormed)
    exact ⟨grammar, document, hd, hl.trans ((step_leads hw op).mono fun _ _ => trivial)⟩

/-- **What holds at the start and is preserved by moves holds of every session that can be reached.** -/
theorem Reachable.invariant {P : Session → Prop}
    (hstart : ∀ grammar document, Document.WellFormed document → P (Session.start grammar document))
    (hact : ∀ s m, s.WellFormed → P s → s.Allows m → P (s.act m)) {s : Session} (h : Reachable s) :
    s.WellFormed ∧ P s := by
  obtain ⟨grammar, document, hd, hl⟩ := h.leads
  exact hl.invariant (fun s m hw hp _ ha => hact s m hw hp ha) (start_wellFormed grammar hd.wellFormed)
    (hstart grammar document hd.wellFormed)

theorem Reachable.wellFormed {s : Session} (h : Reachable s) : s.WellFormed :=
  (h.invariant (P := fun _ => True) (fun _ _ _ => trivial) fun _ _ _ _ _ => trivial).1

/-- comments that may run over lines, and braces -/
def commentsAndBraces : Grammar where
  name := "braces"
  rules := [.range ⟨1⟩ "comment" ['<'] ['>'] (RuleFlags.span.union .comment) 0]
  delimiters := [.literal ['{'] ['}']]
  indents := []

end Session

end Linewise
