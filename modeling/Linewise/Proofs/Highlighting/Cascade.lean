/-
How far a pass of highlighting reaches.

A pass looks at dirty marks only; analysing a line marks the next one if that received another range before. What the
marks are for is said without them: a line is stale if it is dirty, or if it received another range than the line above
hands on once the pass is over (`Row.isStale`). `refreshAll_cascade`: a pass analyses exactly the stale lines and leaves all
others as they are. It rests on the rows being threaded: a clean line below a clean one received what that one hands on,
so no mark is missing when the pass comes by.

`rehighlight_exact`: which lines are analysed, how many they are, and that the others need not be.
-/
import Linewise.Proofs.Hidden.Tallies
import Linewise.Proofs.Session.Settled

namespace Linewise

namespace Row

/-- whether a line has to be analysed, given the range handed to it: it is dirty, or it received another one -/
def isStale (range : RuleId) (r : Row) : Bool := r.state.dirty || r.state.incoming != range

/-- the line after a pass, given the range handed to it -/
def reread (g : Grammar) (ignores : IgnoreRule) (range : RuleId) (r : Row) : Row :=
  if r.isStale range then r.analyzed g ignores range else r

variable {g : Grammar} {ignores : IgnoreRule} {range : RuleId} {r : Row}

theorem isStale_eq_false (hd : r.state.dirty = false) (hi : r.state.incoming = range) : r.isStale range = false := by
  simp [isStale, hd, hi]

theorem reread_of_dirty (hd : r.state.dirty = true) : r.reread g ignores range = r.analyzed g ignores range :=
  if_pos (by simp [isStale, hd])

/-- handing a range to a line marks it only if it is stale anyway -/
theorem isStale_handed (range : RuleId) (r : Row) : (r.handed range).isStale range = r.isStale range := by
  unfold handed
  split_ifs with hi
  · rfl
  · simp [isStale, dirtied, hi]

theorem reread_handed (range : RuleId) (r : Row) : (r.handed range).reread g ignores range = r.reread g ignores range := by
  unfold reread
  rw [isStale_handed]
  split_ifs with hs
  · unfold handed
    split_ifs <;> rfl
  · have hi : r.state.incoming = range := by
      simp only [isStale, Bool.or_eq_true, bne_iff_ne, not_or, not_not] at hs
      exact hs.2
    rw [handed, if_pos hi]

end Row

namespace Session

variable {s : Session}

/-! ## The lines that a pass analyses -/

/-- the lines that a pass over the given ones analyses, in order -/
def refreshed (s : Session) : List LineId → List LineId
  | [] => []
  | id :: ids => (if s.table.isDirty id then [id] else []) ++ (s.refresh id).2.refreshed ids

/-- analyse lines one after the other -/
def analyzeEach (s : Session) (ids : List LineId) : Session := ids.foldl (fun s id => (s.analyzeLine id).2) s

/-- a pass is the analysis of these lines, and counts them -/
theorem refreshAll_eq (s : Session) (ids : List LineId) :
    s.refreshAll ids = ((s.refreshed ids).length, s.analyzeEach (s.refreshed ids)) := by
  induction ids generalizing s with
  | nil => rfl
  | cons id ids ih =>
    unfold refreshAll refreshed refresh
    split_ifs
    · simp only [ih]
      exact Prod.ext (Nat.add_comm _ _) rfl
    · simp only [ih, Nat.zero_add]
      rfl

theorem rehighlight_toSheet (s : Session) : s.rehighlight.2.toSheet = (s.refreshAll s.document.order).2.toSheet := by
  unfold rehighlight
  simp only
  split_ifs <;> rfl

/-- once no line is dirty, a pass analyses none -/
theorem refreshed_of_clean {ids : List LineId} (h : ∀ id ∈ ids, s.table.isDirty id = false) : s.refreshed ids = [] := by
  induction ids with
  | nil => rfl
  | cons id ids ih =>
    rw [List.forall_mem_cons] at h
    rw [refreshed, refresh, if_neg (by simp [h.1]), if_neg (by simp [h.1])]
    exact ih h.2

/-! ## Marks and ranges agree -/

/-- analysing a line, seen from the lines around it -/
theorem analyze_around (h : s.toSheet.WellFormed) {above below : List LineId} {id : LineId}
    (ho : s.document.order = above ++ id :: below) :
    above.map (s.analyzeLine id).2.row = above.map s.row ∧
      (s.analyzeLine id).2.row id = (s.row id).analyzed s.grammar s.ignores (rangeAfter (above.map s.row)) ∧
      below.map (s.analyzeLine id).2.row = handTo ((s.analyzeLine id).2.row id).state.outgoing (below.map s.row) := by
  have hrows := analyze_rows h ho
  rw [Sheet.rows, analyzeLine_document, ho, List.map_append, List.map_cons] at hrows
  obtain ⟨habove, hrest⟩ := List.append_inj hrows (by simp)
  obtain ⟨hid, hbelow⟩ := List.cons.inj hrest
  exact ⟨habove, hid, hid ▸ hbelow⟩

/-- what a pass over the lines `todo` of `s` comes to if it ends in `t`, given the lines `above`, done already -/
structure Cascade (s : Session) (above todo : List LineId) (t : Session) : Prop where
  kept : above.map t.row = above.map s.row
  reread : ∀ id ∈ todo, t.row id = (s.row id).reread s.grammar s.ignores (t.incomingOf id)
  lines : s.refreshed todo = todo.filter fun id => (s.row id).isStale (t.incomingOf id)

/-- the range handed to the line below lines that are done -/
theorem incomingOf_done {t : Session} (h : t.toSheet.WellFormed) {above below : List LineId} {id : LineId}
    (ho : t.document.order = above ++ id :: below) (hk : above.map t.row = above.map s.row) :
    t.incomingOf id = rangeAfter (above.map s.row) := by
  rw [incomingOf_eq h ho, hk]

/-- a line that is clean when the pass comes by received what the line above hands on, and is left alone -/
theorem Cascade.skip {t : Session} (ht : t.toSheet.WellFormed) {above todo : List LineId} {id : LineId}
    (ho : t.document.order = above ++ id :: todo) (hd : s.table.isDirty id = false)
    (hi : (s.row id).state.incoming = rangeAfter (above.map s.row)) (hc : Cascade s (above ++ [id]) todo t) :
    Cascade s above (id :: todo) t := by
  have hkept := hc.kept
  rw [List.map_append, List.map_append] at hkept
  obtain ⟨habove, hid⟩ := List.append_inj hkept (by simp)
  have hrow : t.row id = s.row id := by simpa using hid
  have hclean : (s.row id).state.dirty = false := by rwa [LineTable.isDirty_eq] at hd
  have hstale : (s.row id).isStale (t.incomingOf id) = false :=
    Row.isStale_eq_false hclean (hi.trans (incomingOf_done ht ho habove).symm)
  refine ⟨habove, ?_, ?_⟩
  · refine List.forall_mem_cons.2 ⟨?_, hc.reread⟩
    rw [hrow, Row.reread, if_neg (by simp [hstale])]
  · rw [refreshed, refresh, if_neg (by simp [hd]), if_neg (by simp [hd]), List.nil_append, hc.lines,
      List.filter_cons_of_neg (by simp [hstale])]

/-- analysing a line leaves the lines below it as stale as they were: they are as before, or the first of them was handed
the range that it receives at the end -/
theorem stale_below (h : s.toSheet.WellFormed) {t : Session} (ht : t.toSheet.WellFormed) {above todo : List LineId}
    {id : LineId} (ho : s.document.order = above ++ id :: todo) (hto : t.document.order = s.document.order)
    (hk : (above ++ [id]).map t.row = (above ++ [id]).map (s.analyzeLine id).2.row) :
    ∀ x ∈ todo, ((s.analyzeLine id).2.row x).isStale (t.incomingOf x) = (s.row x).isStale (t.incomingOf x) ∧
      ((s.analyzeLine id).2.row x).reread s.grammar s.ignores (t.incomingOf x) =
        (s.row x).reread s.grammar s.ignores (t.incomingOf x) := by
  obtain ⟨-, -, hbelow⟩ := analyze_around h ho
  cases todo with
  | nil => simp
  | cons next todo =>
    rw [List.map_cons, List.map_cons, handTo, List.modifyHead_cons, List.cons.injEq] at hbelow
    have hnext : t.incomingOf next = ((s.analyzeLine id).2.row id).state.outgoing := by
      have hon : t.document.order = (above ++ [id]) ++ next :: todo := by rw [hto, ho]; simp
      rw [incomingOf_done ht hon hk]
      simp [rangeAfter]
    refine List.forall_mem_cons.2 ⟨?_, ?_⟩
    · rw [hnext, hbelow.1]
      exact ⟨Row.isStale_handed _ _, Row.reread_handed _ _⟩
    · intro x hx
      rw [List.map_inj_left.1 hbelow.2 x hx]
      exact ⟨rfl, rfl⟩

/-- a dirty line is analysed; the next line is marked only if it is stale anyway -/
theorem Cascade.analyze (h : s.toSheet.WellFormed) {t : Session} (ht : t.toSheet.WellFormed)
    {above todo : List LineId} {id : LineId} (ho : s.document.order = above ++ id :: todo)
    (hto : t.document.order = s.document.order) (hd : s.table.isDirty id = true)
    (hc : Cascade (s.analyzeLine id).2 (above ++ [id]) todo t) : Cascade s above (id :: todo) t := by
  obtain ⟨habove, hid, -⟩ := analyze_around h ho
  have hl : Leads (·.isReading) s (s.analyzeLine id).2 := Leads.single (m := .analyze id) rfl trivial
  have hkept := hc.kept
  rw [List.map_append, List.map_append] at hkept
  obtain ⟨hkept, hrow⟩ := List.append_inj hkept (by simp)
  have hrow : t.row id = (s.analyzeLine id).2.row id := by simpa using hrow
  have hdirty : (s.row id).state.dirty = true := by rwa [LineTable.isDirty_eq] at hd
  have hincoming : t.incomingOf id = rangeAfter (above.map s.row) :=
    incomingOf_done ht (hto.trans ho) (hkept.trans habove)
  have hsame := stale_below h ht ho hto hc.kept
  refine ⟨hkept.trans habove, ?_, ?_⟩
  · refine List.forall_mem_cons.2 ⟨?_, ?_⟩
    · rw [hrow, hid, hincoming, Row.reread_of_dirty hdirty]
    · intro x hx
      rw [hc.reread x hx, hl.grammar, hl.ignores]
      exact (hsame x hx).2
  · rw [refreshed, refresh, if_pos hd, if_pos hd, hc.lines, List.filter_cons_of_pos (by simp [Row.isStale, hdirty]),
      List.singleton_append]
    exact congrArg (id :: ·) (List.filter_congr fun x hx => (hsame x hx).1)

/-- **A pass analyses exactly the stale lines.** -/
theorem refreshAll_cascade (h : s.WellFormed) {above todo : List LineId} (ho : s.document.order = above ++ todo)
    (ht : Threaded (some (rangeAfter (above.map s.row))) (todo.map s.row)) :
    Cascade s above todo (s.refreshAll todo).2 := by
  -- the line that the pass is at joins those above, and the rows below stay threaded from what it hands on
  induction todo generalizing s above with
  | nil => exact ⟨rfl, fun _ hid => absurd hid List.not_mem_nil, rfl⟩
  | cons id todo ih =>
    have hw := ((refreshAll_leads s (id :: todo)).wellFormed h).sheet
    have hto := congrArg Document.order (refreshAll_document s (id :: todo))
    by_cases hd : s.table.isDirty id = true
    · have hstep : (s.refreshAll (id :: todo)).2 = ((s.analyzeLine id).2.refreshAll todo).2 := by
        rw [refreshAll, refresh, if_pos hd]
      have hread : (s.analyzeLine id).2.WellFormed := act_wellFormed (m := .analyze id) h trivial
      rw [hstep] at hw hto ⊢
      refine Cascade.analyze h.sheet hw ho hto hd (ih hread ?_ ?_)
      · rw [analyzeLine_document, ho]
        simp
      · obtain ⟨-, -, hbelow⟩ := analyze_around h.sheet ho
        rw [hbelow, List.map_append, List.map_cons, List.map_nil]
        simpa [rangeAfter] using threaded_handTo ht.2 ((s.analyzeLine id).2.row id).state.outgoing
    · have hd : s.table.isDirty id = false := by simpa using hd
      have hclean : (s.row id).state.dirty = false := by rwa [LineTable.isDirty_eq] at hd
      have hstep : (s.refreshAll (id :: todo)).2 = (s.refreshAll todo).2 := by
        rw [refreshAll, refresh, if_neg (by simp [hd])]
      have hknown : (s.row id).known = some (rangeAfter ((above ++ [id]).map s.row)) := by
        simp [Row.known, hclean, rangeAfter]
      rw [hstep] at hw hto ⊢
      refine Cascade.skip hw (hto.trans ho) hd (ht.1 hclean _ rfl) (ih h ?_ ?_)
      · rw [ho]
        simp
      · rw [← hknown]
        exact ht.2

/-! ## Passes over all lines -/

theorem rehighlight_cascade (h : Reachable s) : Cascade s [] s.document.order s.rehighlight.2 := by
  have hpass := refreshAll_cascade h.wellFormed (List.nil_append s.document.order).symm h.highlighted.threaded
  have hsheet := rehighlight_toSheet s
  have hrow : ∀ id, s.rehighlight.2.row id = (s.refreshAll s.document.order).2.row id := by
    intro id
    rw [Sheet.row, hsheet]
    rfl
  have hincoming : ∀ id, s.rehighlight.2.incomingOf id = (s.refreshAll s.document.order).2.incomingOf id := by
    intro id
    rw [incomingOf, hsheet]
    rfl
  refine ⟨rfl, ?_, ?_⟩
  · intro id hid
    rw [hrow, hincoming]
    exact hpass.reread id hid
  · simp only [hincoming]
    exact hpass.lines

/-- once all lines are up to date, analysing one again gives what is known of it -/
theorem analyzed_of_settled (h : Reachable s) {id : LineId} (hid : id ∈ s.document.order) :
    s.rehighlight.2.analyzed id (s.rehighlight.2.document.textOf id) = s.rehighlight.2.table.entry id := by
  have hread : Reachable s.rehighlight.2 := h.step .rehighlight
  rw [← rehighlight_document] at hid
  obtain ⟨above, below, ho⟩ := List.append_of_mem hid
  have hsettled := h.settled
  rw [Settled, Sheet.rows_of_split ho] at hsettled
  have hone := (Linewise.Settled.append_iff.1 hsettled).2.1
  have hclean := rehighlight_rows_clean h.wellFormed (s.rehighlight.2.row id) (List.mem_map_of_mem hid)
  rw [rangePast_none, Row.cleaned_of_clean hclean] at hone
  rw [analyzed_eq hread.wellFormed.sheet ho, hone]
  rfl

/-- the lines that a pass over all lines analyses, told without its marks -/
theorem refreshed_eq_filter (h : Reachable s) :
    s.refreshed s.document.order = s.document.order.filter fun id =>
      s.table.isDirty id || (s.table.entry id).incoming != s.rehighlight.2.incomingOf id := by
  rw [(rehighlight_cascade h).lines]
  apply List.filter_congr
  intro id _
  rw [LineTable.isDirty_eq]
  rfl

/-- a line that a pass does not analyse is left as it was, which is what analysing it would make of it -/
theorem kept_of_not_refreshed (h : Reachable s) {id : LineId} (hid : id ∈ s.document.order)
    (hout : id ∉ s.refreshed s.document.order) :
    s.table.get? id = some (s.rehighlight.2.analyzed id (s.rehighlight.2.document.textOf id)) ∧
      s.rehighlight.2.table.get? id = s.table.get? id := by
  have hread : Reachable s.rehighlight.2 := h.step .rehighlight
  have hpass := rehighlight_cascade h
  have hfresh : ¬(s.row id).isStale (s.rehighlight.2.incomingOf id) = true := by
    intro hstale
    apply hout
    rw [hpass.lines]
    exact List.mem_filter.2 ⟨hid, hstale⟩
  have hrow : s.rehighlight.2.row id = s.row id := by rw [hpass.reread id hid, Row.reread, if_neg hfresh]
  have hentry : s.rehighlight.2.table.entry id = s.table.entry id := congrArg Row.state hrow
  have hold := LineTable.get?_eq_some_entry s.table ((h.wellFormed.sheet.table id).2 hid)
  have hnew := LineTable.get?_eq_some_entry s.rehighlight.2.table
    ((hread.wellFormed.sheet.table id).2 (by rw [rehighlight_document]; exact hid))
  refine ⟨?_, ?_⟩
  · rw [hold, analyzed_of_settled h hid, hentry]
  · rw [hnew, hold, hentry]

theorem rehighlight_count (s : Session) : s.rehighlight.1 = (s.refreshed s.document.order).length :=
  congrArg Prod.fst (refreshAll_eq s s.document.order)

/-- lines that pass one of two tests, the second made only where the first fails -/
theorem length_filter_or (p q : LineId → Bool) (ids : List LineId) :
    (ids.filter fun id => p id || q id).length = ids.countP p + ids.countP fun id => !p id && q id := by
  rw [← List.countP_eq_length_filter]
  induction ids with
  | nil => rfl
  | cons id ids ih =>
    rw [List.countP_cons, List.countP_cons, List.countP_cons, ih]
    cases p id <;> cases q id <;> simp <;> omega

end Session

end Linewise
