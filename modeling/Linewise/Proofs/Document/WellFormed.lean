/-
Documents whose order, slots and noted rows agree.

A look-up first trusts the row noted for a line and renews the notes only if that row holds another line. The notes
below `indexed` are exact (`WellFormed.noted`), ids are not repeated, so a note that happens to name the right line is
the row of that line, and a renewal leaves every note exact.

Main statements, for a well-formed document:
- `locate_of_getElem?`, `locate_of_not_mem`: a look-up finds the row of a line of the document and no other, and changes
  neither lines nor texts;
- `row?_of_split`, `next?_of_split`, `previous?_of_split`: rows and neighbours, read off a split of the order.
-/
import Mathlib.Data.List.Nodup
import Mathlib.Tactic.SplitIfs
import Linewise.Document.Basic

namespace Linewise

/-! ## Positions in lists without repetition -/

theorem idxOf?_of_getElem? {ids : List LineId} (h : ids.Nodup) {row : Nat} {id : LineId} (hr : ids[row]? = some id) :
    ids.idxOf? id = some row := by
  obtain ⟨hlt, hget⟩ := List.getElem?_eq_some_iff.1 hr
  refine List.idxOf?_eq_some_iff.2 ⟨hlt, by simpa using hget, fun j hj => ?_⟩
  have hne : ids[j] ≠ ids[row] := by
    intro he
    have := (List.Nodup.getElem_inj_iff h).1 he
    omega
  simpa [hget] using hne

/-- an id is found in a table exactly if it is one of its keys -/
theorem mem_keys_iff_lookup {α : Type} (entries : List (LineId × α)) (id : LineId) :
    id ∈ entries.map (·.1) ↔ (entries.lookup id).isSome = true := by
  rw [List.lookup_isSome_iff, List.mem_map]
  refine exists_congr fun entry => and_congr_right fun _ => ?_
  rw [beq_iff_eq, eq_comm]

theorem getElem?_split (above below : List LineId) (id : LineId) :
    (above ++ id :: below)[above.length]? = some id := by simp

namespace Document

/-- what holds of every document: no line stands twice, exactly the lines in the order have slots, ids are handed out
in order, and the rows noted below `indexed` are exact -/
structure WellFormed (d : Document) : Prop where
  nodup : d.order.Nodup
  mem_iff : ∀ id, id ∈ d.order ↔ (d.slot? id).isSome = true
  lt_next : ∀ id ∈ d.order, id.index < d.nextId
  noted : ∀ row id slot, row < d.indexed → d.order[row]? = some id → d.slot? id = some slot → slot.row = row

/-- two documents that differ in noted rows only -/
structure SameLines (d e : Document) : Prop where
  order : e.order = d.order
  nextId : e.nextId = d.nextId
  text? : ∀ id, e.text? id = d.text? id

theorem SameLines.refl (d : Document) : SameLines d d := ⟨rfl, rfl, fun _ => rfl⟩

theorem SameLines.textOf {d e : Document} (h : SameLines d e) (id : LineId) : e.textOf id = d.textOf id := by
  simp [Document.textOf, h.text?]

variable {d : Document}

theorem contains_iff (h : d.WellFormed) (id : LineId) : d.contains id = true ↔ id ∈ d.order := (h.mem_iff id).symm

theorem contains_eq_false (h : d.WellFormed) {id : LineId} (hid : id ∉ d.order) : d.contains id = false := by
  rw [← Bool.not_eq_true, contains_iff h]
  exact hid

theorem slot?_eq_none (h : d.WellFormed) {id : LineId} (hid : id ∉ d.order) : d.slot? id = none := by
  simpa [h.mem_iff] using hid

theorem exists_slot (h : d.WellFormed) {id : LineId} (hid : id ∈ d.order) : ∃ slot, d.slot? id = some slot :=
  Option.isSome_iff_exists.1 ((h.mem_iff id).1 hid)

theorem text?_eq_some (h : d.WellFormed) {id : LineId} (hid : id ∈ d.order) : d.text? id = some (d.textOf id) := by
  obtain ⟨slot, hs⟩ := exists_slot h hid
  simp [textOf, text?, hs]

theorem text?_eq_none (h : d.WellFormed) {id : LineId} (hid : id ∉ d.order) : d.text? id = none := by
  simp [text?, slot?_eq_none h hid]

/-! ## Look-ups -/

theorem lookup_map_slots (slots : List (LineId × Slot)) (f : LineId → Slot → Slot) (id : LineId) :
    (slots.map fun entry => (entry.1, f entry.1 entry.2)).lookup id = (slots.lookup id).map (f id) := by
  induction slots with
  | nil => rfl
  | cons entry slots ih =>
    obtain ⟨key, slot⟩ := entry
    simp only [List.map_cons, List.lookup_cons, ih]
    by_cases hk : id = key
    · subst hk; simp
    · simp [beq_false_of_ne hk]

/-- the slot of a line once the rows from `indexed` on are noted anew -/
def renewedSlot (d : Document) (id : LineId) (slot : Slot) : Slot :=
  match (d.order.drop (min d.indexed d.order.length)).idxOf? id with
  | none => slot
  | some below => { slot with row := min d.indexed d.order.length + below }

theorem slot?_reindex (d : Document) (id : LineId) : d.reindex.slot? id = (d.slot? id).map (d.renewedSlot id) := by
  rw [slot?, slot?, ← lookup_map_slots]
  simp only [reindex]
  congr 1
  apply List.map_congr_left
  intro entry _
  simp only [renewedSlot]
  cases (d.order.drop (min d.indexed d.order.length)).idxOf? entry.1 <;> rfl

theorem renewedSlot_text (d : Document) (id : LineId) (slot : Slot) : (d.renewedSlot id slot).text = slot.text := by
  unfold renewedSlot
  cases (d.order.drop (min d.indexed d.order.length)).idxOf? id <;> rfl

theorem renewedSlot_row (h : d.WellFormed) {row : Nat} {id : LineId} {slot : Slot} (hr : d.order[row]? = some id)
    (hs : d.slot? id = some slot) : (d.renewedSlot id slot).row = row := by
  obtain ⟨hlt, _⟩ := List.getElem?_eq_some_iff.1 hr
  unfold renewedSlot
  by_cases hlow : row < min d.indexed d.order.length
  · -- the row is below the renewed ones, where the old note is exact
    have hout : (d.order.drop (min d.indexed d.order.length)).idxOf? id = none := by
      rw [List.idxOf?_eq_none_iff]
      intro hmem
      obtain ⟨j, hj⟩ := List.mem_iff_getElem?.1 hmem
      rw [List.getElem?_drop] at hj
      have h1 := idxOf?_of_getElem? h.nodup hr
      have h2 := idxOf?_of_getElem? h.nodup hj
      rw [h1] at h2
      simp only [Option.some.injEq] at h2
      omega
    rw [hout]
    exact h.noted row id slot (by omega) hr hs
  · have hin : (d.order.drop (min d.indexed d.order.length)).idxOf? id =
        some (row - min d.indexed d.order.length) := by
      refine idxOf?_of_getElem? (h.nodup.sublist (List.drop_sublist _ _)) ?_
      rw [List.getElem?_drop, Nat.add_sub_cancel' (by omega)]
      exact hr
    rw [hin]
    simp only
    omega

theorem reindex_sameLines (d : Document) : SameLines d d.reindex := by
  refine ⟨rfl, rfl, ?_⟩
  intro id
  simp only [text?, slot?_reindex, Option.map_map]
  cases d.slot? id with
  | none => rfl
  | some slot => simp [renewedSlot_text]

theorem reindex_wellFormed (h : d.WellFormed) : d.reindex.WellFormed where
  nodup := h.nodup
  mem_iff id := by rw [slot?_reindex, Option.isSome_map]; exact h.mem_iff id
  lt_next := h.lt_next
  noted row id slot _ hr hs := by
    rw [slot?_reindex] at hs
    obtain ⟨old, hold, rfl⟩ := Option.map_eq_some_iff.1 hs
    exact renewedSlot_row h hr hold

/-- a look-up finds the row of a line; it changes noted rows only -/
theorem locate_of_getElem? (h : d.WellFormed) {row : Nat} {id : LineId} (hr : d.order[row]? = some id) :
    ∃ e, d.locate id = (some row, e) ∧ e.WellFormed ∧ SameLines d e := by
  obtain ⟨slot, hs⟩ := exists_slot h (List.mem_of_getElem? hr)
  simp only [locate, hs]
  split
  · rename_i hnote
    have h1 := idxOf?_of_getElem? h.nodup hr
    have h2 := idxOf?_of_getElem? h.nodup hnote
    rw [h1] at h2
    simp only [Option.some.injEq] at h2
    exact ⟨d, by rw [← h2], h, SameLines.refl d⟩
  · have hrow := renewedSlot_row h hr hs
    refine ⟨d.reindex, ?_, reindex_wellFormed h, reindex_sameLines d⟩
    have ho : d.reindex.order = d.order := rfl
    simp [slot?_reindex, hs, ho, hrow, hr]

theorem locate_of_not_mem (h : d.WellFormed) {id : LineId} (hid : id ∉ d.order) : d.locate id = (none, d) := by
  simp [locate, slot?_eq_none h hid]

theorem row?_of_getElem? (h : d.WellFormed) {row : Nat} {id : LineId} (hr : d.order[row]? = some id) :
    d.row? id = some row := by
  obtain ⟨e, he, _⟩ := locate_of_getElem? h hr
  simp [row?, he]

theorem row?_eq_none (h : d.WellFormed) {id : LineId} (hid : id ∉ d.order) : d.row? id = none := by
  simp [row?, locate_of_not_mem h hid]

theorem getElem?_of_row? (h : d.WellFormed) {row : Nat} {id : LineId} (hr : d.row? id = some row) :
    d.order[row]? = some id := by
  by_cases hid : id ∈ d.order
  · obtain ⟨i, hi⟩ := List.mem_iff_getElem?.1 hid
    rw [row?_of_getElem? h hi] at hr
    cases hr
    exact hi
  · rw [row?_eq_none h hid] at hr
    cases hr

section Split

variable {above below : List LineId} {id : LineId}

theorem row?_of_split (h : d.WellFormed) (ho : d.order = above ++ id :: below) : d.row? id = some above.length :=
  row?_of_getElem? h (by rw [ho, getElem?_split])

theorem next?_of_split (h : d.WellFormed) (ho : d.order = above ++ id :: below) : d.next? id = below.head? := by
  simp only [next?, row?_of_split h ho, Option.bind_some, ho]
  rw [List.getElem?_append_right (by omega)]
  simp [List.head?_eq_getElem?]

theorem previous?_of_split (h : d.WellFormed) (ho : d.order = above ++ id :: below) :
    d.previous? id = above.getLast? := by
  simp only [previous?, row?_of_split h ho, Option.bind_some, ho]
  rcases List.eq_nil_or_concat above with rfl | ⟨front, last, rfl⟩
  · simp
  · simp

theorem not_mem_above (h : d.WellFormed) (ho : d.order = above ++ id :: below) : id ∉ above := by
  have hn := h.nodup
  rw [ho, List.nodup_append] at hn
  exact fun hm => hn.2.2 id hm id List.mem_cons_self rfl

theorem not_mem_below (h : d.WellFormed) (ho : d.order = above ++ id :: below) : id ∉ below := by
  have hn := h.nodup
  rw [ho, List.nodup_append] at hn
  exact (List.nodup_cons.1 hn.2.1).1

theorem nodup_below (h : d.WellFormed) (ho : d.order = above ++ id :: below) : below.Nodup := by
  have hn := h.nodup
  rw [ho, List.append_cons, List.nodup_append] at hn
  exact hn.2.1

theorem head?_below_ne (h : d.WellFormed) (ho : d.order = above ++ id :: below) {x : LineId} (hx : x ∈ above ++ [id]) :
    below.head? ≠ some x := by
  intro hb
  have hn := h.nodup
  rw [ho, List.append_cons, List.nodup_append] at hn
  exact hn.2.2 x hx x (List.mem_of_mem_head? hb) rfl

/-- the lines from one line to another one further down -/
theorem split_between {stop : LineId} {first last : Nat} (h : d.WellFormed) (hf : d.row? id = some first)
    (hl : d.row? stop = some last) (hlt : first < last) :
    ∃ above hidden below, d.order = above ++ id :: (hidden ++ [stop]) ++ below ∧ above.length = first ∧
      hidden.length + 1 = last - first := by
  obtain ⟨above, rest, ho⟩ := List.append_of_mem (List.mem_of_getElem? (getElem?_of_row? h hf))
  have hfirst := row?_of_split h ho
  rw [hf] at hfirst
  cases hfirst
  have hstop := getElem?_of_row? h hl
  rw [ho, List.append_cons, List.getElem?_append_right (by simp; omega)] at hstop
  obtain ⟨hidden, below, rfl⟩ := List.append_of_mem (List.mem_of_getElem? hstop)
  have ho' : d.order = (above ++ id :: hidden) ++ stop :: below := by rw [ho]; simp
  have hlast := row?_of_split h ho'
  rw [hl] at hlast
  simp only [Option.some.injEq, List.length_append, List.length_cons] at hlast
  exact ⟨above, hidden, below, by rw [ho]; simp, rfl, by omega⟩

end Split

end Document

end Linewise
