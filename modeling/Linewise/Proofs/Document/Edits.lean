/-
What the edits of a document make of its lines.

Every edit of a well-formed document gives a well-formed document, with the order changed at one place and no other
text touched; one statement for each edit says so (`setText?_spec`, `insertAfter?_spec`, ...). New lines take the next ids
in order (`freshIds`), and an id is not handed out again (`Succeeds`). `Built` collects the documents that a text and edits
can make; all of them are well formed (`Built.wellFormed`).
-/
import Linewise.Proofs.Document.WellFormed

namespace Linewise.Document

variable {d : Document}

/-! ## Replacing a text -/

theorem slot?_setText (d : Document) (id x : LineId) (text : Text) :
    ((d.slots.map fun (key, slot) => if key = id then (key, { slot with text }) else (key, slot)).lookup x) =
      (d.slot? x).map fun slot => if x = id then { slot with text } else slot := by
  rw [slot?, ← lookup_map_slots d.slots fun key slot => if key = id then { slot with text } else slot]
  congr 1
  apply List.map_congr_left
  intro entry _
  obtain ⟨key, slot⟩ := entry
  simp only
  split_ifs <;> rfl

theorem setText?_spec (h : d.WellFormed) {id : LineId} (hid : id ∈ d.order) (text : Text) :
    ∃ e, d.setText? id text = some e ∧ e.WellFormed ∧ e.order = d.order ∧ e.nextId = d.nextId ∧
      ∀ x, e.textOf x = if x = id then text else d.textOf x := by
  refine ⟨_, if_pos ((contains_iff h id).2 hid), ⟨h.nodup, ?_, h.lt_next, ?_⟩, rfl, rfl, ?_⟩
  · intro x
    rw [slot?, slot?_setText, Option.isSome_map]
    exact h.mem_iff x
  · intro row x slot hlt hr hs
    rw [slot?, slot?_setText] at hs
    obtain ⟨old, hold, rfl⟩ := Option.map_eq_some_iff.1 hs
    have hrow := h.noted row x old hlt hr hold
    split_ifs <;> exact hrow
  · intro x
    simp only [textOf, text?]
    rw [slot?, slot?_setText, Option.map_map]
    split_ifs with hx
    · subst hx
      obtain ⟨slot, hs⟩ := exists_slot h hid
      simp [hs]
    · rfl

theorem setText?_eq_none (h : d.WellFormed) {id : LineId} (hid : id ∉ d.order) (text : Text) :
    d.setText? id text = none := by
  simp [setText?, contains_eq_false h hid]

/-! ## New lines -/

/-- the next ids in order -/
def freshIds (next count : Nat) : List LineId := (List.range' next count).map LineId.mk

@[simp] theorem length_freshIds (next count : Nat) : (freshIds next count).length = count := by simp [freshIds]

theorem mem_freshIds {next count : Nat} {id : LineId} :
    id ∈ freshIds next count ↔ next ≤ id.index ∧ id.index < next + count := by
  simp only [freshIds, List.mem_map, List.mem_range'_1]
  refine ⟨?_, ?_⟩
  · rintro ⟨i, hi, rfl⟩; exact hi
  · intro hi; exact ⟨id.index, hi, rfl⟩

theorem nodup_freshIds (next count : Nat) : (freshIds next count).Nodup := by
  refine List.Nodup.map ?_ List.nodup_range'
  intro i j hij
  cases hij
  rfl

/-- the slots of new lines that will stand at `row` and below -/
def newSlots : Nat → List Text → Nat → List (LineId × Slot)
  | _, [], _ => []
  | next, text :: texts, row => (⟨next⟩, ⟨text, row⟩) :: newSlots (next + 1) texts (row + 1)

theorem allocateAll_eq (d : Document) (texts : List Text) (row : Nat) :
    d.allocateAll texts row = (freshIds d.nextId texts.length,
      { d with slots := d.slots ++ newSlots d.nextId texts row, nextId := d.nextId + texts.length }) := by
  induction texts generalizing d row with
  | nil => simp [allocateAll, newSlots, freshIds]
  | cons text texts ih =>
    simp only [allocateAll, allocate, ih]
    simp [newSlots, freshIds, List.range'_succ, Nat.add_assoc, Nat.add_comm 1]

theorem lookup_newSlots (next : Nat) (texts : List Text) (row i : Nat) :
    (newSlots next texts row).lookup ⟨next + i⟩ = texts[i]?.map fun text => ⟨text, row + i⟩ := by
  induction texts generalizing next row i with
  | nil => simp [newSlots]
  | cons text texts ih =>
    cases i with
    | zero => simp [newSlots]
    | succ i =>
      have hne : (⟨next + (i + 1)⟩ : LineId) ≠ ⟨next⟩ := by
        intro he
        simp only [LineId.mk.injEq] at he
        omega
      have hi := ih (next + 1) (row + 1) i
      rw [show next + 1 + i = next + (i + 1) by omega, show row + 1 + i = row + (i + 1) by omega] at hi
      simp only [newSlots, List.lookup_cons, beq_false_of_ne hne, List.getElem?_cons_succ]
      exact hi

theorem keys_newSlots (next : Nat) (texts : List Text) (row : Nat) :
    (newSlots next texts row).map (·.1) = freshIds next texts.length := by
  induction texts generalizing next row with
  | nil => rfl
  | cons text texts ih =>
    rw [newSlots, List.map_cons, ih]
    simp [freshIds, List.range'_succ]

theorem isSome_lookup_newSlots (next : Nat) (texts : List Text) (row : Nat) (id : LineId) :
    ((newSlots next texts row).lookup id).isSome = true ↔ id ∈ freshIds next texts.length := by
  rw [List.lookup_isSome_iff, ← keys_newSlots next texts row, List.mem_map]
  refine ⟨?_, ?_⟩
  · rintro ⟨entry, hentry, hid⟩
    exact ⟨entry, hentry, (beq_iff_eq.1 hid).symm⟩
  · rintro ⟨entry, hentry, hid⟩
    exact ⟨entry, hentry, beq_iff_eq.2 hid.symm⟩

/-- the document with new lines at a row, as a record -/
theorem insertAt_eq (d : Document) {row : Nat} (hrow : row ≤ d.order.length) (texts : List Text) :
    d.insertAt row texts = (freshIds d.nextId texts.length,
      { slots := d.slots ++ newSlots d.nextId texts row
        order := d.order.take row ++ freshIds d.nextId texts.length ++ d.order.drop row
        indexed := min d.indexed (row + texts.length)
        nextId := d.nextId + texts.length }) := by
  simp only [insertAt, Nat.min_eq_left hrow, allocateAll_eq, distrust, length_freshIds]

theorem mem_insert (d : Document) (texts : List Text) (row : Nat) (x : LineId) :
    x ∈ d.order.take row ++ freshIds d.nextId texts.length ++ d.order.drop row ↔
      x ∈ d.order ∨ x ∈ freshIds d.nextId texts.length := by
  conv_rhs => rw [← List.take_append_drop row d.order]
  simp only [List.mem_append]
  tauto

/-- the document `e` is `d` with new lines `ids` between `above` and `below` -/
structure Inserted (d : Document) (above ids below : List LineId) (texts : List Text) (e : Document) : Prop where
  wellFormed : e.WellFormed
  order : e.order = above ++ ids ++ below
  fresh : ∀ id ∈ ids, id ∉ d.order
  kept : ∀ x ∈ d.order, e.textOf x = d.textOf x
  written : ids.map e.textOf = texts

theorem not_mem_of_mem_freshIds (h : d.WellFormed) {count : Nat} : ∀ id ∈ freshIds d.nextId count, id ∉ d.order := by
  intro id hid hm
  have h1 := h.lt_next id hm
  have h2 := mem_freshIds.1 hid
  omega

section InsertAt

variable (h : d.WellFormed) (texts : List Text) (row : Nat)
include h

theorem slot?_append_newSlots_old {x : LineId} (hx : x ∈ d.order) :
    (d.slots ++ newSlots d.nextId texts row).lookup x = d.slot? x := by
  obtain ⟨slot, hs⟩ := exists_slot h hx
  rw [List.lookup_append, hs, ← slot?, hs]
  rfl

theorem slot?_append_newSlots_new (i : Nat) :
    (d.slots ++ newSlots d.nextId texts row).lookup ⟨d.nextId + i⟩ = texts[i]?.map fun text => ⟨text, row + i⟩ := by
  have hout : (⟨d.nextId + i⟩ : LineId) ∉ d.order := by
    intro hm
    have := h.lt_next _ hm
    simp only at this
    omega
  rw [List.lookup_append, lookup_newSlots, show d.slots.lookup ⟨d.nextId + i⟩ = none from slot?_eq_none h hout]
  rfl

theorem nodup_insert : (d.order.take row ++ freshIds d.nextId texts.length ++ d.order.drop row).Nodup := by
  have hperm : (d.order.take row ++ freshIds d.nextId texts.length ++ d.order.drop row).Perm
      (d.order.take row ++ d.order.drop row ++ freshIds d.nextId texts.length) := by
    rw [List.append_assoc, List.append_assoc]
    exact List.Perm.append_left _ List.perm_append_comm
  rw [hperm.nodup_iff, List.take_append_drop, List.nodup_append]
  refine ⟨h.nodup, nodup_freshIds _ _, ?_⟩
  rintro x hx y hy rfl
  exact not_mem_of_mem_freshIds h x hy hx

/-- **New lines at a row.** They take the next ids and the given texts; the lines around them stay as they are. -/
theorem insertAt_spec (hrow : row ≤ d.order.length) :
    ∃ e, d.insertAt row texts = (freshIds d.nextId texts.length, e) ∧
      Inserted d (d.order.take row) (freshIds d.nextId texts.length) (d.order.drop row) texts e := by
  refine ⟨_, insertAt_eq d hrow texts,
    ⟨⟨nodup_insert h texts row, fun x => ?_, fun x hx => ?_, ?_⟩, rfl, not_mem_of_mem_freshIds h, ?_, ?_⟩⟩
  · rw [slot?, List.lookup_append, ← slot?, Option.isSome_or, Bool.or_eq_true, isSome_lookup_newSlots, ← h.mem_iff,
      mem_insert]
  · rw [mem_insert] at hx
    rcases hx with hx | hx
    · have := h.lt_next x hx
      simp only
      omega
    · exact (mem_freshIds.1 hx).2
  · intro i x slot hlt hr hs
    simp only [slot?] at hlt hr hs
    by_cases hi : i < row
    · -- above the new lines nothing moved
      rw [List.append_assoc, List.getElem?_append_left (by simp; omega), List.getElem?_take_of_lt hi] at hr
      rw [slot?_append_newSlots_old h texts row (List.mem_of_getElem? hr)] at hs
      exact h.noted i x slot (by omega) hr hs
    · -- the notes for the new lines were made for this place
      rw [List.append_assoc, List.getElem?_append_right (by simp; omega),
        List.getElem?_append_left (by simp; omega)] at hr
      simp only [List.length_take, Nat.min_eq_left hrow, freshIds, List.getElem?_map] at hr
      obtain ⟨n, hn, rfl⟩ := Option.map_eq_some_iff.1 hr
      rw [List.getElem?_range' (by omega)] at hn
      simp only [Option.some.injEq] at hn
      subst hn
      rw [show d.nextId + 1 * (i - row) = d.nextId + (i - row) by omega,
        slot?_append_newSlots_new h texts row] at hs
      obtain ⟨text, _, rfl⟩ := Option.map_eq_some_iff.1 hs
      simp only
      omega
  · intro x hx
    simp only [textOf, text?, slot?]
    rw [slot?_append_newSlots_old h texts row hx]
    rfl
  · refine List.ext_getElem (by simp) ?_
    intro i h1 h2
    simp only [freshIds, List.map_map, List.getElem_map, List.getElem_range', Function.comp, textOf, text?, slot?]
    rw [show d.nextId + 1 * i = d.nextId + i by omega, slot?_append_newSlots_new h texts row]
    simp [List.getElem?_eq_getElem h2]

end InsertAt

theorem SameLines.inserted {e f : Document} {above ids below : List LineId} {texts : List Text} (hs : SameLines d e)
    (hi : Inserted e above ids below texts f) : Inserted d above ids below texts f where
  wellFormed := hi.wellFormed
  order := hi.order
  fresh id hid := hs.order ▸ hi.fresh id hid
  kept x hx := (hi.kept x (hs.order ▸ hx)).trans (hs.textOf x)
  written := hi.written

theorem insertAt_of_split (h : d.WellFormed) {above below : List LineId} (ho : d.order = above ++ below)
    (texts : List Text) :
    ∃ e, d.insertAt above.length texts = (freshIds d.nextId texts.length, e) ∧
      Inserted d above (freshIds d.nextId texts.length) below texts e := by
  obtain ⟨e, he, hi⟩ := insertAt_spec h texts above.length (by simp [ho])
  refine ⟨e, he, ?_⟩
  rwa [ho, List.take_left, List.drop_left] at hi

theorem insertOne_of_split (h : d.WellFormed) {above below : List LineId} (ho : d.order = above ++ below)
    (text : Text) :
    ∃ e, d.insertOne above.length text = (⟨d.nextId⟩, e) ∧ Inserted d above [⟨d.nextId⟩] below [text] e := by
  obtain ⟨e, he, hi⟩ := insertAt_of_split h ho [text]
  exact ⟨e, by rw [insertOne, he], hi⟩

theorem insertFirst_spec (h : d.WellFormed) (text : Text) :
    ∃ e, d.insertFirst text = (⟨d.nextId⟩, e) ∧ Inserted d [] [⟨d.nextId⟩] d.order [text] e :=
  insertOne_of_split h (List.nil_append _).symm text

section Split

variable {above below : List LineId} {id : LineId}

theorem locate_of_split (h : d.WellFormed) (ho : d.order = above ++ id :: below) :
    ∃ e, d.locate id = (some above.length, e) ∧ e.WellFormed ∧ SameLines d e :=
  locate_of_getElem? h (by rw [ho, getElem?_split])

theorem insertLinesAfter?_spec (h : d.WellFormed) (ho : d.order = above ++ id :: below) (texts : List Text) :
    ∃ e, d.insertLinesAfter? id texts = some (freshIds d.nextId texts.length, e) ∧
      Inserted d (above ++ [id]) (freshIds d.nextId texts.length) below texts e := by
  obtain ⟨e, he, hw, hs⟩ := locate_of_split h ho
  have ho' : e.order = (above ++ [id]) ++ below := by rw [hs.order, ho]; simp
  obtain ⟨f, hf, hi⟩ := insertAt_of_split hw ho' texts
  rw [hs.nextId] at hf hi
  refine ⟨f, ?_, hs.inserted hi⟩
  simp only [insertLinesAfter?, he]
  rw [← hf, List.length_append, List.length_singleton]

theorem insertAfter?_spec (h : d.WellFormed) (ho : d.order = above ++ id :: below) (text : Text) :
    ∃ e, d.insertAfter? id text = some (⟨d.nextId⟩, e) ∧
      Inserted d (above ++ [id]) [⟨d.nextId⟩] below [text] e := by
  obtain ⟨e, he, hw, hs⟩ := locate_of_split h ho
  have ho' : e.order = (above ++ [id]) ++ below := by rw [hs.order, ho]; simp
  obtain ⟨f, hf, hi⟩ := insertOne_of_split hw ho' text
  rw [hs.nextId] at hf hi
  refine ⟨f, ?_, hs.inserted hi⟩
  simp only [insertAfter?, he]
  rw [← hf, List.length_append, List.length_singleton]

theorem insertBefore?_spec (h : d.WellFormed) (ho : d.order = above ++ id :: below) (text : Text) :
    ∃ e, d.insertBefore? id text = some (⟨d.nextId⟩, e) ∧
      Inserted d above [⟨d.nextId⟩] (id :: below) [text] e := by
  obtain ⟨e, he, hw, hs⟩ := locate_of_split h ho
  obtain ⟨f, hf, hi⟩ := insertOne_of_split hw (hs.order.trans ho) text
  rw [hs.nextId] at hf hi
  refine ⟨f, ?_, hs.inserted hi⟩
  simp only [insertBefore?, he]
  rw [← hf]

end Split

theorem insertLinesAfter?_eq_none (h : d.WellFormed) {id : LineId} (hid : id ∉ d.order) (texts : List Text) :
    d.insertLinesAfter? id texts = none := by
  simp [insertLinesAfter?, locate_of_not_mem h hid]

theorem insertAfter?_eq_none (h : d.WellFormed) {id : LineId} (hid : id ∉ d.order) (text : Text) :
    d.insertAfter? id text = none := by
  simp [insertAfter?, locate_of_not_mem h hid]

theorem insertBefore?_eq_none (h : d.WellFormed) {id : LineId} (hid : id ∉ d.order) (text : Text) :
    d.insertBefore? id text = none := by
  simp [insertBefore?, locate_of_not_mem h hid]

/-! ## Taking lines out -/

/-- the document `e` is `d` with only the lines `above` and `below` left -/
structure Removed (d : Document) (above below : List LineId) (e : Document) : Prop where
  wellFormed : e.WellFormed
  order : e.order = above ++ below
  kept : ∀ x ∈ above ++ below, e.textOf x = d.textOf x

theorem SameLines.removed {e f : Document} {above below : List LineId} (hs : SameLines d e)
    (hr : Removed e above below f) : Removed d above below f where
  wellFormed := hr.wellFormed
  order := hr.order
  kept x hx := (hr.kept x hx).trans (hs.textOf x)

theorem lookup_forget (slots : List (LineId × Slot)) (ids : List LineId) (x : LineId) :
    (slots.filter fun (id, _) => !ids.contains id).lookup x = if x ∈ ids then none else slots.lookup x := by
  induction slots with
  | nil => simp
  | cons entry slots ih =>
    obtain ⟨key, slot⟩ := entry
    by_cases hk : key ∈ ids
    · rw [List.filter_cons_of_neg (by simpa using hk), ih, List.lookup_cons]
      by_cases hx : x = key
      · subst hx; simp [hk]
      · simp [beq_false_of_ne hx]
    · rw [List.filter_cons_of_pos (by simpa using hk), List.lookup_cons, List.lookup_cons, ih]
      by_cases hx : x = key
      · subst hx; simp [hk]
      · simp [beq_false_of_ne hx]

theorem forget_spec (h : d.WellFormed) {above hidden below : List LineId} (ho : d.order = above ++ hidden ++ below) :
    Removed d above below (({ d with order := above ++ below }.distrust above.length).forget hidden) := by
  have hn := h.nodup
  rw [ho, List.nodup_append, List.nodup_append] at hn
  obtain ⟨⟨hna, -, hah⟩, hnb, hab⟩ := hn
  have hout : ∀ x ∈ above ++ below, x ∉ hidden := by
    intro x hx hm
    rcases List.mem_append.1 hx with hx | hx
    · exact hah x hx x hm rfl
    · exact hab x (List.mem_append_right _ hm) x hx rfl
  have hsub : ∀ x ∈ above ++ below, x ∈ d.order := by
    intro x hx
    rw [ho]
    rcases List.mem_append.1 hx with hx | hx <;> simp [hx]
  refine ⟨⟨?_, ?_, fun x hx => h.lt_next x (hsub x hx), ?_⟩, rfl, ?_⟩
  · show (above ++ below).Nodup
    rw [List.nodup_append]
    exact ⟨hna, hnb, fun x hx y hy => hab x (List.mem_append_left _ hx) y hy⟩
  · intro x
    simp only [forget, distrust, slot?]
    rw [lookup_forget]
    split_ifs with hx
    · simp only [Option.isSome_none, Bool.false_eq_true, iff_false]
      exact fun hm => hout x hm hx
    · rw [← slot?, ← h.mem_iff, ho]
      simp [hx]
  · intro row x slot hlt hr hs
    simp only [forget, distrust, slot?] at hlt hr hs
    rw [lookup_forget, if_neg (hout x (List.mem_of_getElem? hr))] at hs
    refine h.noted row x slot (by omega) ?_ hs
    rw [List.getElem?_append_left (by omega)] at hr
    rw [ho, List.append_assoc, List.getElem?_append_left (by omega)]
    exact hr
  · intro x hx
    simp only [forget, distrust, textOf, text?, slot?]
    rw [lookup_forget, if_neg (hout x hx)]

theorem remove?_spec (h : d.WellFormed) {above below : List LineId} {id : LineId}
    (ho : d.order = above ++ id :: below) (hne : above ++ below ≠ []) :
    ∃ e, d.remove? id = some (d.textOf id, e) ∧ Removed d above below e := by
  obtain ⟨e, he, hw, hs⟩ := locate_of_split h ho
  have hlen : (above ++ id :: below).length ≠ 1 := by
    intro hl
    refine hne (List.append_eq_nil_iff.2 ?_)
    simp only [List.length_append, List.length_cons] at hl
    exact ⟨List.length_eq_zero_iff.1 (by omega), List.length_eq_zero_iff.1 (by omega)⟩
  have ho' : e.order = above ++ [id] ++ below := by rw [hs.order, ho]; simp
  refine ⟨_, ?_, hs.removed (forget_spec hw ho')⟩
  have herase : e.order.eraseIdx above.length = above ++ below := by
    rw [hs.order, ho, List.eraseIdx_append_of_length_le (by omega)]
    simp
  simp only [remove?, he, hs.textOf, hs.order, ho]
  rw [if_neg hlen, ← ho, ← hs.order, herase]

theorem remove?_only (h : d.WellFormed) {id : LineId} (ho : d.order = [id]) :
    ∃ e, d.remove? id = some (d.textOf id, e) ∧ e.WellFormed ∧ e.order = [id] ∧ e.textOf id = [] := by
  have ho' : d.order = [] ++ id :: [] := ho
  obtain ⟨e, he, hw, hs⟩ := locate_of_split h ho'
  obtain ⟨f, hf, hfw, hfo, _, hft⟩ := setText?_spec hw (by rw [hs.order, ho]; exact List.mem_singleton_self id) []
  refine ⟨f, ?_, hfw, by rw [hfo, hs.order, ho], by simp [hft]⟩
  simp [remove?, he, hs.textOf, hs.order, ho, hf]

theorem remove?_eq_none (h : d.WellFormed) {id : LineId} (hid : id ∉ d.order) : d.remove? id = none := by
  simp [remove?, locate_of_not_mem h hid]

theorem removeRows_spec (h : d.WellFormed) {above hidden below : List LineId} (ho : d.order = above ++ hidden ++ below)
    (hne : above ≠ []) (hh : hidden ≠ []) :
    ∃ e, d.removeRows above.length (above.length + hidden.length - 1) = (hidden.map fun id => (id, d.textOf id), e) ∧
      Removed d above below e := by
  have ha := List.length_pos_iff.2 hne
  have hl := List.length_pos_iff.2 hh
  refine ⟨_, ?_, forget_spec h ho⟩
  have hlen : d.order.length = above.length + hidden.length + below.length := by
    rw [ho, List.length_append, List.length_append]
  have hcount : above.length + hidden.length - 1 - above.length + 1 = hidden.length := by omega
  have hlast : above.length + hidden.length - 1 + 1 = (above ++ hidden).length := by simp; omega
  have hmid : (d.order.drop above.length).take hidden.length = hidden := by
    rw [ho, List.append_assoc, List.drop_left, List.take_left]
  have htake : d.order.take above.length = above := by rw [ho, List.append_assoc, List.take_left]
  have hdrop : d.order.drop (above ++ hidden).length = below := by rw [ho, List.drop_left]
  rw [removeRows, if_neg (by omega), hcount, hmid, hlast, htake, hdrop]

/-! ## Ids are not handed out again -/

/-- `e` comes after `d`: each line of `e` is a line of `d` or newer than all of them -/
structure Succeeds (d e : Document) : Prop where
  nextId : d.nextId ≤ e.nextId
  lines : ∀ id ∈ e.order, id ∈ d.order ∨ d.nextId ≤ id.index

namespace Succeeds

theorem refl (d : Document) : Succeeds d d := ⟨Nat.le_refl _, fun _ hid => Or.inl hid⟩

theorem trans {e f : Document} (h : Succeeds d e) (h' : Succeeds e f) : Succeeds d f := by
  refine ⟨Nat.le_trans h.nextId h'.nextId, ?_⟩
  intro id hid
  rcases h'.lines id hid with hold | hnew
  · exact h.lines id hold
  · exact Or.inr (Nat.le_trans h.nextId hnew)

/-- a document with some of the lines, and no new ones -/
theorem of_subset {e : Document} (hn : e.nextId = d.nextId) (ho : ∀ id ∈ e.order, id ∈ d.order) : Succeeds d e :=
  ⟨Nat.le_of_eq hn.symm, fun id hid => Or.inl (ho id hid)⟩

theorem locate (d : Document) (id : LineId) : Succeeds d (d.locate id).2 := by
  unfold Document.locate
  split
  · exact refl d
  · split
    · exact refl d
    · exact of_subset rfl fun _ hid => hid

theorem setText? {id : LineId} {text : Text} {e : Document} (he : d.setText? id text = some e) : Succeeds d e := by
  unfold Document.setText? at he
  split_ifs at he
  cases he
  exact of_subset rfl fun _ hid => hid

theorem insertAt (d : Document) (row : Nat) (texts : List Text) : Succeeds d (d.insertAt row texts).2 := by
  simp only [Document.insertAt, allocateAll_eq, distrust]
  refine ⟨Nat.le_add_right _ _, ?_⟩
  intro id hid
  rcases (mem_insert d texts (min row d.order.length) id).1 hid with hold | hnew
  · exact Or.inl hold
  · exact Or.inr (mem_freshIds.1 hnew).1

theorem insertLinesAfter? {id : LineId} {texts : List Text} {ids : List LineId} {e : Document}
    (he : d.insertLinesAfter? id texts = some (ids, e)) : Succeeds d e := by
  have hl := locate d id
  unfold Document.insertLinesAfter? at he
  split at he
  · cases he
  · rename_i row f hf
    rw [hf] at hl
    have hi := insertAt f (row + 1) texts
    rw [Option.some.inj he] at hi
    exact hl.trans hi

theorem insertAfter? {id new : LineId} {text : Text} {e : Document} (he : d.insertAfter? id text = some (new, e)) :
    Succeeds d e := by
  have hl := locate d id
  unfold Document.insertAfter? at he
  split at he
  · cases he
  · rename_i row f hf
    rw [hf] at hl
    cases he
    exact hl.trans (insertAt f (row + 1) [text])

theorem insertBefore? {id new : LineId} {text : Text} {e : Document} (he : d.insertBefore? id text = some (new, e)) :
    Succeeds d e := by
  have hl := locate d id
  unfold Document.insertBefore? at he
  split at he
  · cases he
  · rename_i row f hf
    rw [hf] at hl
    cases he
    exact hl.trans (insertAt f row [text])

theorem remove? {id : LineId} {text : Text} {e : Document} (he : d.remove? id = some (text, e)) : Succeeds d e := by
  have hl := locate d id
  unfold Document.remove? at he
  split at he
  · cases he
  · rename_i row f hf
    rw [hf] at hl
    simp only at he
    split_ifs at he
    · obtain ⟨f', hf', heq⟩ := Option.map_eq_some_iff.1 he
      cases heq
      exact hl.trans (setText? hf')
    · cases he
      exact hl.trans (of_subset rfl fun _ hid => List.mem_of_mem_eraseIdx hid)

theorem removeRows (d : Document) (first last : Nat) : Succeeds d (d.removeRows first last).2 := by
  unfold Document.removeRows
  split_ifs
  · exact refl d
  · refine of_subset rfl ?_
    intro id hid
    rcases List.mem_append.1 hid with hid | hid
    · exact List.mem_of_mem_take hid
    · exact List.mem_of_mem_drop hid

end Succeeds

/-! ## Documents that can be made -/

theorem empty_wellFormed (indexed : Nat) : WellFormed { indexed } where
  nodup := List.nodup_nil
  mem_iff id := by simp [slot?]
  lt_next id hid := by cases hid
  noted row id slot _ hr := by simp at hr

/-- the document of a text is nothing but the new lines with its lines as texts -/
theorem ofText_spec (text : Text) :
    Inserted { indexed := (Text.splitLines text).length } [] (freshIds 0 (Text.splitLines text).length) []
      (Text.splitLines text) (ofText text) := by
  have hofText :
      ofText text = (insertAt { indexed := (Text.splitLines text).length } 0 (Text.splitLines text)).2 := by
    rw [insertAt_eq _ (Nat.zero_le _)]
    simp [ofText, allocateAll_eq]
  obtain ⟨e, he, hi⟩ := insertAt_spec (empty_wellFormed _) (Text.splitLines text) 0 (Nat.zero_le _)
  rw [hofText, he]
  simpa using hi

/-- a document made from a text, or from nothing, by edits and look-ups -/
inductive Built : Document → Prop where
  | empty : Built {}
  | ofText (text : Text) : Built (ofText text)
  | locate {d : Document} (id : LineId) : Built d → Built (d.locate id).2
  | setText {d e : Document} (id : LineId) (text : Text) : Built d → d.setText? id text = some e → Built e
  | insertFirst {d : Document} (text : Text) : Built d → Built (d.insertFirst text).2
  | insertAfter {d e : Document} {new : LineId} (id : LineId) (text : Text) :
    Built d → d.insertAfter? id text = some (new, e) → Built e
  | insertBefore {d e : Document} {new : LineId} (id : LineId) (text : Text) :
    Built d → d.insertBefore? id text = some (new, e) → Built e
  | insertLinesAfter {d e : Document} {new : List LineId} (id : LineId) (texts : List Text) :
    Built d → d.insertLinesAfter? id texts = some (new, e) → Built e
  | remove {d e : Document} {text : Text} (id : LineId) : Built d → d.remove? id = some (text, e) → Built e
  | removeRows {d : Document} (first last : Nat) : Built d → Built (d.removeRows first last).2

/-- the rows above `first`, from `first` to `last`, and below `last` -/
theorem order_cut (d : Document) {first last : Nat} (h : first ≤ last) :
    d.order = d.order.take first ++ (d.order.drop first).take (last - first + 1) ++ d.order.drop (last + 1) := by
  have hdrop : d.order.drop (last + 1) = (d.order.drop first).drop (last - first + 1) := by
    rw [List.drop_drop]
    congr 1
    omega
  rw [List.append_assoc, hdrop, List.take_append_drop, List.take_append_drop]

theorem removeRows_wellFormed (h : d.WellFormed) (first last : Nat) : (d.removeRows first last).2.WellFormed := by
  unfold removeRows
  split_ifs with hc
  · exact h
  · have ho := order_cut d (show first ≤ last by omega)
    have hlen : (d.order.take first).length = first := by
      rw [List.length_take]
      omega
    have hr := (forget_spec h ho).wellFormed
    rw [hlen] at hr
    exact hr

/-- **Every document that can be made is well formed.** -/
theorem Built.wellFormed {d : Document} (h : d.Built) : d.WellFormed := by
  induction h with
  | empty => exact empty_wellFormed 0
  | ofText text => exact (ofText_spec text).wellFormed
  | @locate d id _ ih =>
    by_cases hid : id ∈ d.order
    · obtain ⟨row, hrow⟩ := List.mem_iff_getElem?.1 hid
      obtain ⟨e, he, hw, _⟩ := locate_of_getElem? ih hrow
      rw [he]
      exact hw
    · rw [locate_of_not_mem ih hid]
      exact ih
  | @setText d e id text _ he ih =>
    by_cases hid : id ∈ d.order
    · obtain ⟨f, hf, hw, _⟩ := setText?_spec ih hid text
      rw [hf] at he
      cases he
      exact hw
    · rw [setText?_eq_none ih hid] at he
      cases he
  | insertFirst text _ ih =>
    obtain ⟨e, he, hi⟩ := insertFirst_spec ih text
    rw [he]
    exact hi.wellFormed
  | @insertAfter d e new id text _ he ih =>
    by_cases hid : id ∈ d.order
    · obtain ⟨above, below, ho⟩ := List.append_of_mem hid
      obtain ⟨f, hf, hi⟩ := insertAfter?_spec ih ho text
      rw [hf] at he
      cases he
      exact hi.wellFormed
    · rw [insertAfter?_eq_none ih hid] at he
      cases he
  | @insertBefore d e new id text _ he ih =>
    by_cases hid : id ∈ d.order
    · obtain ⟨above, below, ho⟩ := List.append_of_mem hid
      obtain ⟨f, hf, hi⟩ := insertBefore?_spec ih ho text
      rw [hf] at he
      cases he
      exact hi.wellFormed
    · rw [insertBefore?_eq_none ih hid] at he
      cases he
  | @insertLinesAfter d e new id texts _ he ih =>
    by_cases hid : id ∈ d.order
    · obtain ⟨above, below, ho⟩ := List.append_of_mem hid
      obtain ⟨f, hf, hi⟩ := insertLinesAfter?_spec ih ho texts
      rw [hf] at he
      cases he
      exact hi.wellFormed
    · rw [insertLinesAfter?_eq_none ih hid] at he
      cases he
  | @remove d e text id _ he ih =>
    by_cases hid : id ∈ d.order
    · obtain ⟨above, below, ho⟩ := List.append_of_mem hid
      by_cases hne : above ++ below = []
      · obtain ⟨rfl, rfl⟩ := List.append_eq_nil_iff.1 hne
        obtain ⟨f, hf, hw, _⟩ := remove?_only ih ho
        rw [hf] at he
        cases he
        exact hw
      · obtain ⟨f, hf, hr⟩ := remove?_spec ih ho hne
        rw [hf] at he
        cases he
        exact hr.wellFormed
    · rw [remove?_eq_none ih hid] at he
      cases he
  | removeRows first last _ ih => exact removeRows_wellFormed ih first last

end Linewise.Document
