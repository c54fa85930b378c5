/-
Moves: what the operations of a session are made of.

Every operation analyses lines, edits one line, hides or brings back lines, keeps a layout, or only takes notes; each of
these is a `Move`. `Effect` says once what a move makes of the rows of a session, whatever the ids, noted rows and table
entries are: `act_effect` is the only statement that looks at them. Invariants of sessions are proved by cases on
`Effect`.
-/
import Linewise.Proofs.Sheet.Rows
import Linewise.Session.Op

namespace Linewise

/-- one move of a session -/
inductive Move where
  | analyze (line : LineId)
  | setText (line : LineId) (text : Text)
  | insertAfter (line : Option LineId) (text : Text)
  | insertBefore (line : LineId) (text : Text)
  | remove (line : LineId)
  | hide (start stop : LineId)
  | expand (line : LineId) (deep : Bool)
  | keepLayout (kind : Nat)
  | ignore (rule : IgnoreRule)
  | configure (settings : IndentSettings)
  | subscribe
  | drain
  | log (notices : List Notice)

namespace Move

/-- the line that a move is about, where it does nothing if there is no such line -/
def line? : Move → Option LineId
  | analyze line | setText line _ | insertBefore line _ | remove line | expand line _ => some line
  | insertAfter line _ => line
  | _ => none

/-- whether a move leaves the rows as they are -/
def isQuiet : Move → Bool
  | keepLayout _ | configure _ | subscribe | drain | log _ => true
  | _ => false

end Move

namespace Session

/-- keep the layout of one kind of delimiter, built anew -/
def keepLayout (s : Session) (kind : Nat) : Session :=
  { s with folds := s.folds.set kind (some (Layout.build (s.foldLines kind))) }

/-- the session after a move -/
def act (s : Session) : Move → Session
  | .analyze line => (s.analyzeLine line).2
  | .setText line text => (s.setText line text).2
  | .insertAfter line text => (s.insertAfter line text).2
  | .insertBefore line text => (s.insertBefore line text).2
  | .remove line => (s.remove line).2
  | .hide start stop => (s.collapseClean start stop).2
  | .expand line deep => (s.expand line deep).2
  | .keepLayout kind => s.keepLayout kind
  | .ignore rule => s.withIgnoreRule rule
  | .configure settings => s.withSettings settings
  | .subscribe => s.subscribe
  | .drain => s.drain.2.2
  | .log notices => s.log notices

/-- a move may be made; lines are hidden only if they are up to date, the line that they go behind included -/
def Allows (s : Session) : Move → Prop
  | .hide start stop => ∀ first last, s.document.row? start = some first → s.document.row? stop = some last →
    ∀ id ∈ (s.document.order.drop first).take (last - first + 1), s.table.isDirty id = false
  | _ => True

end Session

/-- what a move makes of the rows of a session with grammar `g` that passes over the lines `ignores` tells -/
inductive Effect (g : Grammar) (ignores : IgnoreRule) : Move → List Row → List Row → Prop where
  | quiet {m : Move} (rows : List Row) (hm : m.isQuiet = true) : Effect g ignores m rows rows
  | unknown {m : Move} (rows : List Row) (line : LineId) (hm : m.line? = some line) (hl : ∀ r ∈ rows, r.id ≠ line) :
    Effect g ignores m rows rows
  | analyze (above : List Row) (r : Row) (below : List Row) :
    Effect g ignores (.analyze r.id) (above ++ r :: below)
      (above ++ r.analyzed g ignores (rangeAfter above) ::
        handTo (r.analyzed g ignores (rangeAfter above)).state.outgoing below)
  | setText (above : List Row) (r : Row) (below : List Row) (text : Text) :
    Effect g ignores (.setText r.id text) (above ++ r :: below) (above ++ r.rewritten text :: below)
  | insertFirst (rows : List Row) (id : LineId) (text : Text) (hid : ∀ r ∈ rows, r.id ≠ id) :
    Effect g ignores (.insertAfter none text) rows (.new id text :: dirtyFirst rows)
  | insertAfter (above : List Row) (r : Row) (below : List Row) (id : LineId) (text : Text)
    (hid : ∀ x ∈ above ++ r :: below, x.id ≠ id) :
    Effect g ignores (.insertAfter (some r.id) text) (above ++ r :: below)
      (above ++ r :: .new id text :: dirtyFirst below)
  | insertBefore (above : List Row) (r : Row) (below : List Row) (id : LineId) (text : Text)
    (hid : ∀ x ∈ above ++ r :: below, x.id ≠ id) :
    Effect g ignores (.insertBefore r.id text) (above ++ r :: below) (above ++ .new id text :: r.dirtied :: below)
  | remove (above : List Row) (r : Row) (below : List Row) (hne : above ++ below ≠ []) :
    Effect g ignores (.remove r.id) (above ++ r :: below) (above ++ dirtyFirst below)
  | removeOnly (r : Row) : Effect g ignores (.remove r.id) [r] [.new r.id []]
  | hide (above : List Row) (r : Row) (hidden : List Row) (last : Row) (below : List Row)
    (hclean : ∀ x ∈ r :: (hidden ++ [last]), x.state.dirty = false) :
    Effect g ignores (.hide r.id last.id) (above ++ r :: (hidden ++ [last]) ++ below)
      (above ++ r.covering (hidden ++ [last]) :: dirtyFirst below)
  | hideRefused (rows : List Row) (start stop : LineId) : Effect g ignores (.hide start stop) rows rows
  | expandFlat (above : List Row) (r : Row) (below : List Row) (deep : Bool) (hs : r.state.snapshot = none) :
    Effect g ignores (.expand r.id deep) (above ++ r :: below) (above ++ r.dirtied :: below)
  | expand (above : List Row) (r : Row) (below : List Row) (deep : Bool) (snapshot : Snapshot) (ids : List LineId)
    (hs : r.state.snapshot = some snapshot) (hl : ids.length = (Snapshot.restoredAll deep snapshot.children).length)
    (hid : ∀ x ∈ above ++ r :: below, x.id ∉ ids) (hn : ids.Nodup) :
    Effect g ignores (.expand r.id deep) (above ++ r :: below)
      (above ++ r.opened :: (Row.restored ids (Snapshot.restoredAll deep snapshot.children) ++ dirtyFirst below))
  | ignore (rows : List Row) (rule : IgnoreRule) : Effect g ignores (.ignore rule) rows (rows.map Row.dirtied)

/-- the line below, if it has to be analysed again because it received another range before -/
def Sheet.receiver (s : Sheet) (id : LineId) (range : RuleId) : Option LineId :=
  match s.document.next? id with
  | none => none
  | some next => if (s.table.get? next).map (·.incoming) = some range then none else some next

namespace Session

/-! ## Sheets under the parts of a move -/

@[simp] theorem notify_toSheet (s : Session) (event : Event) : (s.notify event).toSheet = s.toSheet := rfl

@[simp] theorem log_toSheet (s : Session) (notices : List Notice) : (s.log notices).toSheet = s.toSheet := rfl

@[simp] theorem markDirty?_toSheet (s : Session) (line : Option LineId) :
    (s.markDirty? line).toSheet = { s.toSheet with table := s.table.markDirty? line } := rfl

@[simp] theorem dropFolds_toSheet (s : Session) : s.dropFolds.toSheet = s.toSheet := by
  unfold dropFolds
  simp only
  split_ifs <;> rfl

theorem store_toSheet (s : Session) (id : LineId) (new : LineState) :
    (s.store id new).toSheet = { s.toSheet with table := s.table.insert id new } := by
  unfold store
  simp only
  split_ifs <;> simp

theorem handOver_toSheet (s : Session) (id : LineId) (range : RuleId) :
    (s.handOver id range).2.toSheet = { s.toSheet with table := s.table.markDirty? (s.toSheet.receiver id range) } := by
  unfold handOver Sheet.receiver
  cases s.document.next? id with
  | none => rfl
  | some next =>
    simp only
    split_ifs <;> rfl

theorem wellFormed_of_table {s : Sheet} (h : s.WellFormed) {table : LineTable}
    (ht : ∀ id, table.contains id = true ↔ s.table.contains id = true) : ({ s with table } : Sheet).WellFormed :=
  ⟨h.document, fun id => (ht id).trans (h.table id)⟩

section Analyze

variable {s : Session} {above below : List LineId} {id : LineId}

theorem incomingOf_eq (h : s.toSheet.WellFormed) (ho : s.document.order = above ++ id :: below) :
    s.incomingOf id = rangeAfter (above.map s.row) := by
  rw [incomingOf, Document.previous?_of_split h.document ho, rangeAfter, List.getLast?_map, Option.map_map]
  cases hl : above.getLast? with
  | none => rfl
  | some last =>
    have hm : last ∈ s.document.order := by
      rw [ho]
      exact List.mem_append_left _ (List.mem_of_getLast? hl)
    simp [LineTable.get?_eq_some_entry s.table ((h.table last).2 hm), Sheet.row]

theorem analyzed_eq (h : s.toSheet.WellFormed) (ho : s.document.order = above ++ id :: below) :
    s.analyzed id (s.document.textOf id) =
      ((s.row id).analyzed s.grammar s.ignores (rangeAfter (above.map s.row))).state := by
  simp only [analyzed, incomingOf_eq h ho]
  rfl

theorem analyzeLine_toSheet (h : s.toSheet.WellFormed) (hid : id ∈ s.document.order) :
    (s.analyzeLine id).2.toSheet =
      { document := s.document
        table := (s.table.insert id (s.analyzed id (s.document.textOf id))).markDirty?
          (Sheet.receiver ⟨s.document, s.table.insert id (s.analyzed id (s.document.textOf id))⟩ id
            (s.analyzed id (s.document.textOf id)).outgoing) } := by
  simp only [analyzeLine, Document.text?_eq_some h.document hid, handOver_toSheet, store_toSheet]
  rfl

/-- what is received below a line, read off the rows there -/
theorem receiver_eq (h : s.toSheet.WellFormed) (ho : s.document.order = above ++ id :: below) (new : LineState)
    (range : RuleId) :
    Sheet.receiver ⟨s.document, s.table.insert id new⟩ id range =
      below.head?.filter fun next => (s.table.entry next).incoming ≠ range := by
  simp only [Sheet.receiver, Document.next?_of_split h.document ho]
  cases hb : below.head? with
  | none => rfl
  | some next =>
    have hnb := List.mem_of_mem_head? hb
    have hne : next ≠ id := fun he => Document.not_mem_below h.document ho (he ▸ hnb)
    have hm : next ∈ s.document.order := by rw [ho]; simp [hnb]
    simp only [LineTable.get?_insert, if_neg hne, LineTable.get?_eq_some_entry s.table ((h.table next).2 hm),
      Option.map_some, Option.some.injEq, Option.filter]
    by_cases hi : (s.table.entry next).incoming = range <;> simp [hi]

theorem analyze_rows (h : s.toSheet.WellFormed) (ho : s.document.order = above ++ id :: below) :
    (s.analyzeLine id).2.rows = above.map s.row ++
      (s.row id).analyzed s.grammar s.ignores (rangeAfter (above.map s.row)) ::
        handTo ((s.row id).analyzed s.grammar s.ignores (rangeAfter (above.map s.row))).state.outgoing
          (below.map s.row) := by
  have hid : id ∈ s.document.order := by rw [ho]; simp
  set new := s.analyzed id (s.document.textOf id) with hnew
  rw [← analyzed_eq h ho, ← hnew]
  set line := below.head?.filter fun next => (s.table.entry next).incoming ≠ new.outgoing with hline
  have hsheet : (s.analyzeLine id).2.toSheet = ⟨s.document, (s.table.insert id new).markDirty? line⟩ := by
    rw [analyzeLine_toSheet h hid, receiver_eq h ho]
  have hnot : ∀ x ∈ above ++ [id], line ≠ some x := fun x hx hx' =>
    Document.head?_below_ne h.document ho hx (Option.filter_eq_some_iff.1 hx').1
  rw [Sheet.rows, hsheet, ho, List.map_append, List.map_cons]
  congr 1
  · apply List.map_congr_left
    intro x hx
    have hne : x ≠ id := fun he => Document.not_mem_above h.document ho (he ▸ hx)
    exact Sheet.row_markDirty?_of_ne (hnot x (List.mem_append_left _ hx)) rfl (by
      rw [LineTable.entry_insert, if_neg hne])
  congr 1
  · simp only [Sheet.row, LineTable.entry_markDirty?, if_neg (hnot id (by simp)), LineTable.entry_insert, if_pos,
      hnew, analyzed_eq h ho]
    rfl
  · refine Sheet.map_row_modifyHead (Document.nodup_below h.document ho) ?_ ?_
    · intro x hx
      have hne : x ≠ id := fun he => Document.not_mem_below h.document ho (he ▸ List.mem_of_mem_head? hx)
      by_cases hi : (s.table.entry x).incoming = new.outgoing
      · have hl : line ≠ some x := by
          intro hl
          have := (Option.filter_eq_some_iff.1 hl).2
          simp [hi] at this
        rw [Sheet.row_markDirty?_of_ne (s := s.toSheet) hl rfl (by rw [LineTable.entry_insert, if_neg hne])]
        simp [Row.handed, Sheet.row, hi]
      · have hl : line = some x := Option.filter_eq_some_iff.2 ⟨hx, by simpa using hi⟩
        rw [Row.handed, if_neg (show (s.row x).state.incoming ≠ new.outgoing from hi)]
        simp only [Sheet.row, LineTable.entry_markDirty?, if_pos hl, LineTable.entry_insert, if_neg hne, Row.dirtied]
    · intro x hx hne
      have hne' : x ≠ id := fun he => Document.not_mem_below h.document ho (he ▸ hx)
      exact Sheet.row_markDirty?_of_ne (fun hl => hne (Option.filter_eq_some_iff.1 hl).1) rfl (by
        rw [LineTable.entry_insert, if_neg hne'])

theorem analyze_wellFormed (h : s.toSheet.WellFormed) (ho : s.document.order = above ++ id :: below) :
    (s.analyzeLine id).2.toSheet.WellFormed := by
  have hid : id ∈ s.document.order := by rw [ho]; simp
  rw [analyzeLine_toSheet h hid, receiver_eq h ho]
  apply wellFormed_of_table h
  intro x
  rw [LineTable.contains_markDirty?, LineTable.contains_insert]
  refine ⟨?_, ?_⟩
  · rintro (hx | rfl | hx)
    · have hb := List.mem_of_mem_head? (Option.filter_eq_some_iff.1 hx).1
      exact (h.table x).2 (by rw [ho]; simp [hb])
    · exact (h.table x).2 hid
    · exact hx
  · exact fun hx => Or.inr (Or.inr hx)

end Analyze

/-! ## Edits -/

section Edit

variable {s : Session} {above below : List LineId} {id : LineId}

theorem setText_rows (h : s.toSheet.WellFormed) (ho : s.document.order = above ++ id :: below) (text : Text) :
    (s.setText id text).2.toSheet.WellFormed ∧
      (s.setText id text).2.rows = above.map s.row ++ (s.row id).rewritten text :: below.map s.row := by
  have hid : id ∈ s.document.order := by rw [ho]; simp
  obtain ⟨e, he, hw, heo, _, het⟩ := Document.setText?_spec h.document hid text
  have hsheet : (s.setText id text).2.toSheet = ⟨e, s.table.markDirty? (some id)⟩ := by
    simp only [setText, he, dropFolds_toSheet, markDirty?_toSheet]
  rw [hsheet]
  refine ⟨⟨hw, ?_⟩, ?_⟩
  · intro x
    rw [LineTable.contains_markDirty?, h.table, heo, Option.some.injEq]
    exact ⟨fun hx => hx.elim (fun hx => hx ▸ hid) fun hx => hx, Or.inr⟩
  · have hrow : Sheet.row ⟨e, s.table.markDirty? (some id)⟩ id = (s.row id).rewritten text := by
      simp only [Sheet.row, Row.rewritten, LineTable.entry_markDirty?, het, if_pos]
    rw [Sheet.rows_of_touched h.document ho heo fun x hx => ?_, hrow]
    exact Sheet.row_markDirty?_of_ne (by simpa using hx.symm) (by rw [het, if_neg hx]) rfl

/-- a new line between two others; the one below is analysed again -/
theorem take_rows (h : s.toSheet.WellFormed) (ho : s.document.order = above ++ below) {text : Text} {e : Document}
    (hi : Document.Inserted s.document above [id] below [text] e) :
    (s.take (id, e)).toSheet.WellFormed ∧
      (s.take (id, e)).rows = above.map s.row ++ .new id text :: dirtyFirst (below.map s.row) := by
  have heo : e.order = above ++ id :: below := by rw [hi.order]; simp
  have hsheet : (s.take (id, e)).toSheet = ⟨e, (s.table.insert id .fresh).markDirty? below.head?⟩ := by
    simp only [take, dropFolds_toSheet, markDirty?_toSheet, Document.next?_of_split hi.wellFormed heo]
  rw [hsheet]
  refine ⟨Sheet.wellFormed_spliced hi.wellFormed hi.order ?_, ?_⟩
  · intro x
    rw [LineTable.contains_insert, h.table, ho]
    simp only [List.mem_append, List.mem_singleton]
    tauto
  · have hrow : Sheet.row ⟨e, s.table.insert id .fresh⟩ id = .new id text := by
      have htext : e.textOf id = text := by simpa using hi.written
      simp only [Sheet.row, Row.new, LineTable.entry_insert, if_pos, htext]
    rw [Sheet.rows_spliced hi.wellFormed hi.order (fun x hx => hi.kept x (ho ▸ hx)) fun x hx => ?_, List.map_singleton,
      hrow, List.append_assoc, List.singleton_append]
    have hne : x ≠ id := fun he => hi.fresh id (List.mem_singleton_self id) (ho ▸ he ▸ hx)
    rw [LineTable.entry_insert, if_neg hne]

theorem remove_rows (h : s.toSheet.WellFormed) (ho : s.document.order = above ++ id :: below)
    (hne : above ++ below ≠ []) :
    (s.remove id).2.toSheet.WellFormed ∧
      (s.remove id).2.rows = above.map s.row ++ dirtyFirst (below.map s.row) := by
  obtain ⟨e, he, hr⟩ := Document.remove?_spec h.document ho hne
  have heo : e.order = above ++ [] ++ below := by rw [hr.order]; simp
  have hout : ∀ x ∈ above ++ below, x ≠ id := by
    rintro x hx rfl
    rcases List.mem_append.1 hx with hx | hx
    · exact Document.not_mem_above h.document ho hx
    · exact Document.not_mem_below h.document ho hx
  have hcontains : e.contains id = false :=
    Document.contains_eq_false hr.wellFormed fun hm => hout id (hr.order ▸ hm) rfl
  have hsheet : (s.remove id).2.toSheet = ⟨e, (s.table.erase id).markDirty? below.head?⟩ := by
    simp only [remove, he, hcontains, dropFolds_toSheet, markDirty?_toSheet, Bool.false_eq_true, if_false,
      Document.next?_of_split h.document ho]
  rw [hsheet]
  refine ⟨Sheet.wellFormed_spliced hr.wellFormed heo ?_, ?_⟩
  · intro x
    rw [LineTable.contains_erase, h.table, ho, List.append_nil]
    refine ⟨?_, fun hx => ⟨hout x hx, ?_⟩⟩
    · intro hx
      simp only [List.mem_append, List.mem_cons] at hx ⊢
      tauto
    · simp only [List.mem_append, List.mem_cons] at hx ⊢
      tauto
  · rw [Sheet.rows_spliced hr.wellFormed heo hr.kept fun x hx => LineTable.entry_erase _ (hout x hx), List.map_nil,
      List.append_nil]

theorem remove_only_rows (h : s.toSheet.WellFormed) (ho : s.document.order = [id]) :
    (s.remove id).2.toSheet.WellFormed ∧ (s.remove id).2.rows = [.new id []] := by
  obtain ⟨e, he, hw, heo, het⟩ := Document.remove?_only h.document ho
  have hcontains : e.contains id = true := (Document.contains_iff hw id).2 (by rw [heo]; simp)
  have ho' : s.document.order = [] ++ id :: [] := ho
  have hsheet : (s.remove id).2.toSheet = ⟨e, s.table.insert id .fresh⟩ := by
    simp only [remove, he, hcontains, dropFolds_toSheet, markDirty?_toSheet, if_true,
      Document.next?_of_split h.document ho']
    rfl
  refine ⟨?_, ?_⟩
  · rw [hsheet]
    refine ⟨hw, ?_⟩
    intro x
    rw [LineTable.contains_insert, h.table, ho, heo, List.mem_singleton, or_self]
  · simp only [Sheet.rows, hsheet, heo, List.map_cons, List.map_nil, Sheet.row, LineTable.entry_insert, if_pos, het,
      Row.new]

end Edit

/-! ## Hiding and bringing back -/

section Hide

variable {s : Session} {above hidden below : List LineId} {start stop : LineId}

/-- the lines around those that are hidden -/
theorem outside_span {d : Document} (h : d.WellFormed)
    (ho : d.order = above ++ start :: (hidden ++ [stop]) ++ below) :
    ∀ x ∈ above ++ below, x ∉ hidden ++ [stop] ∧ x ≠ start := by
  have hn := h.nodup
  rw [ho, List.append_assoc, List.cons_append, List.nodup_append, List.nodup_cons, List.nodup_append] at hn
  intro x hx
  rcases List.mem_append.1 hx with hx | hx
  · refine ⟨fun hm => hn.2.2 x hx x ?_ rfl, fun he => hn.2.2 x hx x ?_ rfl⟩
    · exact List.mem_cons_of_mem _ (List.mem_append_left _ hm)
    · exact he ▸ List.mem_cons_self
  · refine ⟨fun hm => hn.2.1.2.2.2 x hm x hx rfl, fun he => hn.2.1.1 ?_⟩
    exact he ▸ List.mem_append_right _ hx

theorem hidden_kept (h : s.toSheet.WellFormed) (hidden : List LineId) (hm : ∀ id ∈ hidden, id ∈ s.document.order) :
    ((hidden.map fun id => (id, s.document.textOf id)).map fun line =>
      ((s.table.get? line.1).getD {}).toSnapshot line.2) = (hidden.map s.row).map Row.kept := by
  rw [List.map_map, List.map_map]
  apply List.map_congr_left
  intro id hid
  simp only [Function.comp, LineTable.get?_eq_some_entry s.table ((h.table id).2 (hm id hid)), Option.getD_some]
  rfl

theorem carriedBetween_eq (h : s.toSheet.WellFormed) (hidden : List LineId) (hs : start ∈ s.document.order)
    (ht : stop ∈ s.document.order) :
    s.toSheet.carriedBetween start stop =
      ⟨(s.row start).state.regions.outgoing, rangeAfter ((hidden ++ [stop]).map s.row)⟩ := by
  simp [Sheet.carriedBetween, rangeAfter, Sheet.row, LineTable.get?_eq_some_entry s.table ((h.table _).2 hs),
    LineTable.get?_eq_some_entry s.table ((h.table _).2 ht)]

/-- the sheet with the lines below `start` up to `stop` hidden -/
theorem hideRows_eq (h : s.toSheet.WellFormed) (ho : s.document.order = above ++ start :: (hidden ++ [stop]) ++ below) :
    ∃ e, Document.Removed s.document (above ++ [start]) below e ∧
      (s.toSheet.hideRows start stop above.length (above.length + hidden.length + 1)).2 =
        ⟨e, ((hidden ++ [stop]).foldl (fun t id => t.erase id) s.table).insert start
          ((s.row start).covering ((hidden ++ [stop]).map s.row)).state⟩ := by
  have ho' : s.document.order = (above ++ [start]) ++ (hidden ++ [stop]) ++ below := by rw [ho]; simp
  have hmem : ∀ id ∈ above ++ start :: (hidden ++ [stop]), id ∈ s.document.order := by
    intro id hid
    rw [ho]
    exact List.mem_append_left _ hid
  obtain ⟨e, he, hr⟩ := Document.removeRows_spec h.document ho' (by simp) (by simp)
  have hlen : (above ++ [start]).length + (hidden ++ [stop]).length - 1 = above.length + hidden.length + 1 := by
    simp
    omega
  rw [hlen, List.length_append, List.length_singleton] at he
  have hstart : start ∉ hidden ++ [stop] := by
    intro hm
    have hn := h.document.nodup
    rw [ho', List.nodup_append, List.nodup_append] at hn
    exact hn.1.2.2 start (by simp) start hm rfl
  refine ⟨e, hr, ?_⟩
  have hfold : ∀ t : LineTable, ((hidden ++ [stop]).map fun id => (id, s.document.textOf id)).foldl
      (fun t line => t.erase line.1) t = (hidden ++ [stop]).foldl (fun t id => t.erase id) t := by
    intro t
    rw [List.foldl_map]
  have hentry : ((hidden ++ [stop]).foldl (fun t id => t.erase id) s.table).entry start = s.table.entry start := by
    exact LineTable.entry_foldl_erase _ _ hstart
  have hkept := hidden_kept h (hidden ++ [stop]) fun id hid =>
    hmem id (List.mem_append_right _ (List.mem_cons_of_mem _ hid))
  have hcarried := carriedBetween_eq h hidden (hmem start (by simp)) (hmem stop (by simp))
  simp only [Sheet.hideRows, he, hkept, hcarried, hfold, hentry, hr.kept start (by simp)]
  rfl

theorem collapseClean_rows (h : s.toSheet.WellFormed)
    (ho : s.document.order = above ++ start :: (hidden ++ [stop]) ++ below) :
    (s.collapseClean start stop).2.toSheet.WellFormed ∧
      (s.collapseClean start stop).2.rows =
        above.map s.row ++ (s.row start).covering ((hidden ++ [stop]).map s.row) :: dirtyFirst (below.map s.row) := by
  obtain ⟨e, hr, he⟩ := hideRows_eq h ho
  have ho1 : s.document.order = above ++ start :: (hidden ++ [stop] ++ below) := by rw [ho]; simp
  have ho2 : s.document.order = (above ++ start :: hidden) ++ stop :: below := by rw [ho]; simp
  have heo : e.order = above ++ start :: below := by rw [hr.order]; simp
  have hrow2 := Document.row?_of_split h.document ho2
  simp only [List.length_append, List.length_cons, ← Nat.add_assoc] at hrow2
  set table := (hidden ++ [stop]).foldl (fun t id => t.erase id) s.table with htable
  set new := (s.row start).covering ((hidden ++ [stop]).map s.row) with hnew
  have hsheet : (s.collapseClean start stop).2.toSheet =
      ⟨e, (table.insert start new.state).markDirty? below.head?⟩ := by
    rw [collapseClean, Sheet.collapse, Document.row?_of_split h.document ho1, hrow2]
    simp only
    rw [if_neg (by omega)]
    simp only [dropFolds_toSheet, markDirty?_toSheet, log_toSheet, he]
    rw [Document.next?_of_split hr.wellFormed heo]
  have hout := outside_span h.document ho
  rw [hsheet]
  refine ⟨Sheet.wellFormed_spliced hr.wellFormed hr.order ?_, ?_⟩
  · intro x
    rw [LineTable.contains_insert, htable, LineTable.contains_foldl_erase, h.table, ho1]
    by_cases hx : x = start
    · simp [hx]
    · refine ⟨?_, ?_⟩
      · intro hm
        simp only [List.mem_append, List.mem_cons] at hm ⊢
        tauto
      · intro hm
        have hx' : x ∈ above ++ below := by
          simp only [List.mem_append, List.mem_singleton] at hm ⊢
          tauto
        exact Or.inr ⟨(hout x hx').1, by simp only [List.mem_append, List.mem_cons] at hx' ⊢; tauto⟩
  · have hkept : ∀ x ∈ above ++ below, e.textOf x = s.document.textOf x := fun x hx =>
      hr.kept x (by simp only [List.mem_append] at hx ⊢; tauto)
    have hrow : Sheet.row ⟨e, table.insert start new.state⟩ start = new := by
      simp only [Sheet.row, LineTable.entry_insert, if_pos, hr.kept start (by simp)]
      rfl
    have heo' : e.order = above ++ [start] ++ below := hr.order
    rw [Sheet.rows_spliced hr.wellFormed heo' hkept fun x hx => ?_, List.map_singleton, hrow, List.append_assoc,
      List.singleton_append]
    rw [LineTable.entry_insert, if_neg (hout x hx).2]
    exact LineTable.entry_foldl_erase _ _ (hout x hx).1

end Hide

section Expand

variable {s : Session} {above below : List LineId} {line : LineId}

theorem map_row_restored {t : Sheet} (ids : List LineId) (lines : List (Text × Option Snapshot))
    (ht : ids.map t.document.textOf = lines.map (·.1))
    (he : ids.map t.table.entry = lines.map fun line => { LineState.fresh with snapshot := line.2 }) :
    ids.map t.row = Row.restored ids lines := by
  induction ids generalizing lines with
  | nil => simp [Row.restored]
  | cons id ids ih =>
    cases lines with
    | nil => simp at ht
    | cons first lines =>
      simp only [List.map_cons, List.cons.injEq] at ht he
      simp only [List.map_cons, Row.restored, List.zipWith_cons_cons, List.cons.injEq]
      exact ⟨by simp only [Sheet.row, ht.1, he.1], ih lines ht.2 he.2⟩

theorem next?_after {e : Document} (he : e.WellFormed) {ids : List LineId}
    (ho : e.order = above ++ [line] ++ ids ++ below) : e.next? (ids.getLast?.getD line) = below.head? := by
  rcases List.eq_nil_or_concat ids with rfl | ⟨front, last, rfl⟩
  · have ho' : e.order = above ++ line :: below := by rw [ho]; simp
    exact Document.next?_of_split he ho'
  · have ho' : e.order = (above ++ [line] ++ front) ++ last :: below := by rw [ho]; simp
    simpa using Document.next?_of_split he ho'

theorem expand_flat_rows (h : s.toSheet.WellFormed) (ho : s.document.order = above ++ line :: below) (deep : Bool)
    (hs : (s.row line).state.snapshot = none) :
    (s.expand line deep).2.toSheet.WellFormed ∧
      (s.expand line deep).2.rows = above.map s.row ++ (s.row line).dirtied :: below.map s.row := by
  have hid : line ∈ s.document.order := by rw [ho]; simp
  have hget := LineTable.get?_eq_some_entry s.table ((h.table line).2 hid)
  have hsheet : (s.expand line deep).2.toSheet = ⟨s.document, s.table.markDirty? (some line)⟩ := by
    have hs' : (s.table.entry line).snapshot = none := hs
    simp only [expand, Sheet.expand, (Document.contains_iff h.document line).2 hid, hget, hs', Bool.not_true,
      Bool.false_eq_true, if_false, LineTable.markDirty?, LineTable.markDirty]
  rw [hsheet]
  refine ⟨wellFormed_of_table h ?_, ?_⟩
  · intro x
    rw [LineTable.contains_markDirty?, Option.some.injEq]
    exact ⟨fun hx => hx.elim (fun hx => hx ▸ (h.table line).2 hid) fun hx => hx, Or.inr⟩
  · have hrow : Sheet.row ⟨s.document, s.table.markDirty? (some line)⟩ line = (s.row line).dirtied := by
      simp only [Sheet.row, Row.dirtied, LineTable.entry_markDirty?, if_pos]
    have hrows := Sheet.rows_of_touched (t := ⟨s.document, s.table.markDirty? (some line)⟩) h.document ho rfl
      fun x hx => Sheet.row_markDirty?_of_ne (by simpa using hx.symm) rfl rfl
    rwa [hrow] at hrows

/-- a line that hides nothing is not expanded -/
theorem expand_refused (h : s.toSheet.WellFormed) (deep : Bool)
    (hs : line ∉ s.document.order ∨ (s.row line).state.snapshot = none) :
    ∃ error, (s.expand line deep).1 = .error error := by
  by_cases hl : line ∈ s.document.order
  · have hs' : (s.table.entry line).snapshot = none := hs.resolve_left fun hout => hout hl
    have hget := LineTable.get?_eq_some_entry s.table ((h.table line).2 hl)
    refine ⟨.notCollapsed line, ?_⟩
    simp [expand, Sheet.expand, (Document.contains_iff h.document line).2 hl, hget, hs']
  · refine ⟨.unknownLine line, ?_⟩
    simp [expand, Sheet.expand, Document.contains_eq_false h.document hl]

theorem expand_rows (h : s.toSheet.WellFormed) (ho : s.document.order = above ++ line :: below) (deep : Bool)
    {snapshot : Snapshot} (hs : (s.row line).state.snapshot = some snapshot) :
    ∃ ids, (s.expand line deep).1 = .ok ids ∧
      ids.length = (Snapshot.restoredAll deep snapshot.children).length ∧ (∀ x ∈ s.document.order, x ∉ ids) ∧
      ids.Nodup ∧ (s.expand line deep).2.toSheet.WellFormed ∧
      (s.expand line deep).2.rows = above.map s.row ++ (s.row line).opened ::
        (Row.restored ids (Snapshot.restoredAll deep snapshot.children) ++ dirtyFirst (below.map s.row)) := by
  have hid : line ∈ s.document.order := by rw [ho]; simp
  have hget := LineTable.get?_eq_some_entry s.table ((h.table line).2 hid)
  set lines := Snapshot.restoredAll deep snapshot.children with hlines
  obtain ⟨e, he, hi⟩ := Document.insertLinesAfter?_spec h.document ho (lines.map (·.1))
  set ids := Document.freshIds s.document.nextId (lines.map (·.1)).length with hids
  set states := lines.map (fun line => { LineState.fresh with snapshot := line.2 }) with hstates
  set table := (s.table.insert line (s.row line).opened.state).insertAll (ids.zip states) with htable
  have hanswer : s.toSheet.expand line deep = (.ok ids, ⟨e, table⟩) := by
    have hs' : (s.table.entry line).snapshot = some snapshot := hs
    simp only [Sheet.expand, (Document.contains_iff h.document line).2 hid, hget, hs', Bool.not_true,
      Bool.false_eq_true, if_false, Sheet.restore, ← hlines, he]
    rfl
  have hsheet : (s.expand line deep).2.toSheet = ⟨e, table.markDirty? below.head?⟩ := by
    simp only [expand, hanswer, dropFolds_toSheet, markDirty?_toSheet, log_toSheet,
      next?_after hi.wellFormed hi.order]
  have hlen : ids.length = lines.length := by rw [hids, Document.length_freshIds, List.length_map]
  have hn : ids.Nodup := Document.nodup_freshIds _ _
  have hfresh : ∀ x ∈ s.document.order, x ∉ ids := fun x hx hxi => hi.fresh x hxi hx
  have hkeys : (ids.zip states).map (·.1) = ids := by
    rw [← List.unzip_fst, List.unzip_zip (by rw [hlen, hstates, List.length_map])]
  have hentry : ∀ x ∈ s.document.order,
      table.entry x = if x = line then (s.row line).opened.state else s.table.entry x := by
    intro x hx
    rw [htable, LineTable.entry_insertAll_of_not_mem _ _ (by rw [hkeys]; exact hfresh x hx), LineTable.entry_insert]
  have heo : e.order = above ++ (line :: ids) ++ below := by rw [hi.order]; simp
  refine ⟨ids, by simp only [expand, hanswer], hlen, hfresh, hn, ?_⟩
  rw [hsheet]
  refine ⟨Sheet.wellFormed_spliced hi.wellFormed heo ?_, ?_⟩
  · intro x
    rw [htable, LineTable.contains_insertAll, hkeys, LineTable.contains_insert, h.table, ho]
    simp only [List.mem_append, List.mem_cons]
    tauto
  · have hline : Sheet.row ⟨e, table⟩ line = (s.row line).opened := by
      simp only [Sheet.row, hentry line hid, if_pos, hi.kept line hid]
      rfl
    have hback : ids.map (Sheet.row ⟨e, table⟩) = Row.restored ids lines :=
      map_row_restored ids lines hi.written
        (LineTable.map_entry_insertAll _ ids states hn (by rw [hlen, hstates, List.length_map]))
    have hmem : ∀ x ∈ above ++ below, x ∈ s.document.order ∧ x ≠ line := by
      intro x hx
      refine ⟨by rw [ho]; simp only [List.mem_append, List.mem_cons] at hx ⊢; tauto, ?_⟩
      rintro rfl
      rcases List.mem_append.1 hx with hx | hx
      · exact Document.not_mem_above h.document ho hx
      · exact Document.not_mem_below h.document ho hx
    rw [Sheet.rows_spliced hi.wellFormed heo (fun x hx => hi.kept x (hmem x hx).1) fun x hx => ?_, List.map_cons, hline,
      hback, List.append_assoc, List.cons_append]
    rw [hentry x (hmem x hx).1, if_neg (hmem x hx).2]

end Expand

/-! ## Passing over other lines -/

theorem entry_foldl_markDirty (t : LineTable) (ids : List LineId) (x : LineId) :
    (ids.foldl (·.markDirty ·) t).entry x = if x ∈ ids then { t.entry x with dirty := true } else t.entry x := by
  induction ids generalizing t with
  | nil => simp
  | cons id ids ih =>
    have hone : (t.markDirty id).entry x = if x = id then { t.entry x with dirty := true } else t.entry x := by
      have := LineTable.entry_markDirty? t (some id) x
      simpa [LineTable.markDirty?, eq_comm] using this
    rw [List.foldl_cons, ih, hone]
    by_cases hx : x = id <;> by_cases hm : x ∈ ids <;> simp [hx, hm]

theorem contains_foldl_markDirty (t : LineTable) (ids : List LineId) (x : LineId) :
    (ids.foldl (·.markDirty ·) t).contains x = true ↔ x ∈ ids ∨ t.contains x = true := by
  induction ids generalizing t with
  | nil => simp
  | cons id ids ih =>
    rw [List.foldl_cons, ih, LineTable.markDirty, LineTable.contains_insert, List.mem_cons]
    tauto

theorem ignore_rows {s : Session} (h : s.toSheet.WellFormed) (rule : IgnoreRule) :
    (s.withIgnoreRule rule).toSheet.WellFormed ∧ (s.withIgnoreRule rule).rows = s.rows.map Row.dirtied := by
  refine ⟨?_, ?_⟩
  · apply wellFormed_of_table h
    intro x
    rw [contains_foldl_markDirty, h.table]
    exact or_self_iff
  · rw [Sheet.rows, Sheet.rows, List.map_map]
    apply List.map_congr_left
    intro x hx
    have hx' : x ∈ s.document.order := hx
    simp only [Sheet.row, Function.comp, Row.dirtied, withIgnoreRule, entry_foldl_markDirty]
    rw [if_pos hx']

/-! ## The effect of every move -/

/-- a move about a line that is none of the document does nothing -/
theorem act_unknown {s : Session} (h : s.toSheet.WellFormed) {m : Move} {line : LineId} (hm : m.line? = some line)
    (hl : line ∉ s.document.order) : s.act m = s := by
  cases m with
  | analyze id =>
    cases hm
    simp [act, analyzeLine, Document.text?_eq_none h.document hl]
  | setText id text =>
    cases hm
    simp [act, setText, Document.setText?_eq_none h.document hl]
  | insertAfter id text =>
    cases hm
    simp [act, insertAfter, Document.insertAfter?_eq_none h.document hl]
  | insertBefore id text =>
    cases hm
    simp [act, insertBefore, Document.insertBefore?_eq_none h.document hl]
  | remove id =>
    cases hm
    simp [act, remove, Document.remove?_eq_none h.document hl]
  | expand id deep =>
    cases hm
    simp [act, expand, Sheet.expand, Document.contains_eq_false h.document hl]
  | _ => cases hm

theorem collapseClean_refused {s : Session} {start stop : LineId}
    (h : ∀ first last, s.document.row? start = some first → s.document.row? stop = some last → ¬ first < last) :
    (s.collapseClean start stop).2 = s := by
  unfold collapseClean Sheet.collapse
  cases hf : s.document.row? start with
  | none => rfl
  | some first =>
    cases hl : s.document.row? stop with
    | none => rfl
    | some last =>
      have hle : last ≤ first := Nat.le_of_not_lt (h first last hf hl)
      simp only [if_pos hle]

/-- what a move about a line of the document makes of the rows -/
theorem act_known {s : Session} (h : s.toSheet.WellFormed) {m : Move} {line : LineId} (hm : m.line? = some line)
    (hl : line ∈ s.document.order) :
    Effect s.grammar s.ignores m s.rows (s.act m).rows ∧ (s.act m).toSheet.WellFormed := by
  obtain ⟨above, below, ho⟩ := List.append_of_mem hl
  have hrows := Sheet.rows_of_split (s := s.toSheet) ho
  have hids : ∀ r ∈ above.map s.row ++ s.row line :: below.map s.row, r.id ∈ s.document.order := by
    intro r hr
    rw [← hrows] at hr
    rw [← Sheet.map_id_rows]
    exact List.mem_map_of_mem hr
  have hline : (s.row line).id = line := rfl
  cases m with
  | analyze id =>
    cases hm
    refine ⟨?_, analyze_wellFormed h ho⟩
    rw [hrows, act, analyze_rows h ho]
    exact Effect.analyze _ (s.row line) _
  | setText id text =>
    cases hm
    obtain ⟨hw, hr⟩ := setText_rows h ho text
    refine ⟨?_, hw⟩
    rw [hrows, act, hr]
    exact Effect.setText _ (s.row line) _ text
  | insertAfter id text =>
    cases hm
    obtain ⟨e, he, hi⟩ := Document.insertAfter?_spec h.document ho text
    obtain ⟨hw, hr⟩ := take_rows h (by rw [ho]; simp) hi
    have hact : s.act (.insertAfter (some line) text) = s.take (⟨s.document.nextId⟩, e) := by
      simp only [act, insertAfter, he]
    rw [hact]
    refine ⟨?_, hw⟩
    rw [hrows, hr, List.map_append, List.append_assoc]
    exact Effect.insertAfter _ (s.row line) _ _ text fun x hx hxe =>
      hi.fresh _ (List.mem_singleton_self _) (hxe ▸ hids x hx)
  | insertBefore id text =>
    cases hm
    obtain ⟨e, he, hi⟩ := Document.insertBefore?_spec h.document ho text
    obtain ⟨hw, hr⟩ := take_rows h ho hi
    have hact : s.act (.insertBefore line text) = s.take (⟨s.document.nextId⟩, e) := by
      simp only [act, insertBefore, he]
    rw [hact]
    refine ⟨?_, hw⟩
    rw [hrows, hr]
    exact Effect.insertBefore _ (s.row line) _ _ text fun x hx hxe =>
      hi.fresh _ (List.mem_singleton_self _) (hxe ▸ hids x hx)
  | remove id =>
    cases hm
    by_cases hne : above ++ below = []
    · obtain ⟨rfl, rfl⟩ := List.append_eq_nil_iff.1 hne
      obtain ⟨hw, hr⟩ := remove_only_rows h ho
      refine ⟨?_, hw⟩
      rw [hrows, act, hr]
      exact Effect.removeOnly (s.row line)
    · obtain ⟨hw, hr⟩ := remove_rows h ho hne
      refine ⟨?_, hw⟩
      rw [hrows, act, hr]
      exact Effect.remove _ (s.row line) _ (by simpa using hne)
  | expand id deep =>
    cases hm
    cases hs : (s.row line).state.snapshot with
    | none =>
      obtain ⟨hw, hr⟩ := expand_flat_rows h ho deep hs
      refine ⟨?_, hw⟩
      rw [hrows, act, hr]
      exact Effect.expandFlat _ (s.row line) _ deep hs
    | some snapshot =>
      obtain ⟨ids, _, hlen, hfresh, hn, hw, hr⟩ := expand_rows h ho deep hs
      refine ⟨?_, hw⟩
      rw [hrows, act, hr]
      exact Effect.expand _ (s.row line) _ deep snapshot ids hs hlen (fun x hx => hfresh _ (hids x hx)) hn
  | _ => cases hm

theorem hide_effect {s : Session} (h : s.toSheet.WellFormed) (start stop : LineId)
    (ha : s.Allows (.hide start stop)) :
    Effect s.grammar s.ignores (.hide start stop) s.rows (s.act (.hide start stop)).rows ∧
      (s.act (.hide start stop)).toSheet.WellFormed := by
  by_cases hok : ∃ first last, s.document.row? start = some first ∧ s.document.row? stop = some last ∧ first < last
  · obtain ⟨first, last, hf, hl, hlt⟩ := hok
    obtain ⟨above, hidden, below, ho, rfl, hlen⟩ := Document.split_between h.document hf hl hlt
    obtain ⟨hw, hr⟩ := collapseClean_rows h ho
    refine ⟨?_, hw⟩
    have hspan : (s.document.order.drop above.length).take (last - above.length + 1) =
        start :: (hidden ++ [stop]) := by
      rw [ho, List.append_assoc, List.drop_left, List.take_append_of_le_length (by simp; omega),
        List.take_of_length_le (by simp; omega)]
    have hclean : ∀ x ∈ s.row start :: (hidden.map s.row ++ [s.row stop]), x.state.dirty = false := by
      intro x hx
      have hx' : x ∈ (start :: (hidden ++ [stop])).map s.row := by simpa using hx
      obtain ⟨id, hid, rfl⟩ := List.mem_map.1 hx'
      rw [← hspan] at hid
      have := ha _ last hf hl id hid
      rwa [LineTable.isDirty_eq] at this
    have hrows : s.rows = above.map s.row ++ s.row start :: (hidden.map s.row ++ [s.row stop]) ++ below.map s.row := by
      simp [Sheet.rows, ho]
    rw [hrows, act, hr, List.map_append]
    exact Effect.hide _ (s.row start) _ (s.row stop) _ hclean
  · have hs : s.act (.hide start stop) = s :=
      collapseClean_refused fun first last hf hl hlt => hok ⟨first, last, hf, hl, hlt⟩
    rw [hs]
    exact ⟨Effect.hideRefused _ _ _, h⟩

/-- **Every move does what `Effect` says, and keeps the sheet well formed.** -/
theorem act_effect {s : Session} (h : s.toSheet.WellFormed) (m : Move) (ha : s.Allows m) :
    Effect s.grammar s.ignores m s.rows (s.act m).rows ∧ (s.act m).toSheet.WellFormed := by
  cases hm : m.line? with
  | some line =>
    by_cases hl : line ∈ s.document.order
    · exact act_known h hm hl
    · rw [act_unknown h hm hl]
      refine ⟨Effect.unknown _ line hm fun r hr hrl => hl ?_, h⟩
      rw [← Sheet.map_id_rows, ← hrl]
      exact List.mem_map_of_mem hr
  | none =>
    cases m with
    | insertAfter line text =>
      cases hm
      obtain ⟨e, he, hi⟩ := Document.insertFirst_spec h.document text
      obtain ⟨hw, hr⟩ := take_rows h (List.nil_append _).symm hi
      have hact : s.act (.insertAfter none text) = s.take (⟨s.document.nextId⟩, e) := by
        simp only [act, insertAfter, he]
      rw [hact]
      refine ⟨?_, hw⟩
      rw [hr]
      refine Effect.insertFirst _ _ text fun r hr hre => hi.fresh _ (List.mem_singleton_self _) ?_
      rw [← hre, ← Sheet.map_id_rows]
      exact List.mem_map_of_mem hr
    | hide start stop => exact hide_effect h start stop ha
    | ignore rule =>
      obtain ⟨hw, hr⟩ := ignore_rows h rule
      refine ⟨?_, hw⟩
      rw [act, hr]
      exact Effect.ignore _ rule
    | keepLayout kind => exact ⟨Effect.quiet _ rfl, h⟩
    | configure settings => exact ⟨Effect.quiet _ rfl, h⟩
    | subscribe => exact ⟨Effect.quiet _ rfl, h⟩
    | drain => exact ⟨Effect.quiet _ rfl, h⟩
    | log notices => exact ⟨Effect.quiet _ rfl, h⟩
    | _ => cases hm

end Session

end Linewise
