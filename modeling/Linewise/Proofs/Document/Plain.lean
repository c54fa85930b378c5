/-
A document refines a plain list of lines.

A plain document is a list of ids with texts and the next id; it notes no rows. A look-up walks down the list, and an
edit of a line puts other lines in its place (`Plain.replace`). A document shows the plain one with its order and texts
(`Document.plain`); look-ups and edits, in any order, answer as the plain ones do.

Main statements:
- `perform_refines`: one edit or look-up gives the plain answer, leaves the plain lines, and keeps the document exact;
- `run_plain`: so does every run from a text, and no id is ever handed out twice or comes back.
-/
import Mathlib.Data.List.Perm.Lattice
import Mathlib.Data.List.Flatten
import Linewise.Proofs.Document.Edits

namespace Linewise

theorem Text.splitLines_ne_nil (text : Text) : splitLines text ≠ [] := by
  have hsplit : splitOn '\n' text ≠ [] := by
    cases text with
    | nil => simp [splitOn]
    | cons c cs =>
      unfold splitOn
      split_ifs
      · simp
      · split <;> simp
  simpa [splitLines] using hsplit

/-! ## Edits as data -/

/-- what a look-up tells of a line: its row, its neighbours, its byte offset in the whole text, its text -/
structure Sight where
  row : Option Nat := none
  next : Option LineId := none
  previous : Option LineId := none
  offset : Option Nat := none
  text : Option Text := none
  deriving DecidableEq, Repr

/-- an edit or a look-up of a document -/
inductive Edit where
  | look (id : LineId)
  | setText (id : LineId) (text : Text)
  | insertFirst (text : Text)
  | insertAfter (after : Option LineId) (text : Text)
  | insertBefore (before : LineId) (text : Text)
  | insertLinesAfter (after : LineId) (texts : List Text)
  | remove (id : LineId)
  | removeRows (first last : Nat)
  deriving DecidableEq, Repr

/-- what an edit or a look-up answers -/
inductive Answer where
  | sight (sight : Sight)
  | done (ok : Bool)
  | line (id : Option LineId)
  | lines (ids : Option (List LineId))
  | text (text : Option Text)
  | removed (lines : List (LineId × Text))
  deriving DecidableEq, Repr

/-- the line that must be there for the edit -/
def Edit.target? : Edit → Option LineId
  | look id | setText id _ | insertBefore id _ | insertLinesAfter id _ | remove id => some id
  | insertAfter after _ => after
  | insertFirst _ | removeRows _ _ => none

/-- the answer if that line is not there -/
def Edit.refusal : Edit → Answer
  | look _ => .sight {}
  | setText _ _ => .done false
  | insertFirst _ | insertAfter _ _ | insertBefore _ _ => .line none
  | insertLinesAfter _ _ => .lines none
  | remove _ => .text none
  | removeRows _ _ => .removed []

/-- the ids that an answer hands out -/
def Answer.created : Answer → List LineId
  | line (some id) => [id]
  | lines (some ids) => ids
  | _ => []

/-! ## Plain documents -/

/-- the lines in order, each with its text, and the next id -/
structure Plain where
  lines : List (LineId × Text)
  nextId : Nat
  deriving DecidableEq, Repr

namespace Plain

/-- the ids in order -/
def ids (p : Plain) : List LineId := p.lines.map (·.1)

/-- how many lines stand above the line -/
def rowIn (id : LineId) : List (LineId × Text) → Option Nat
  | [] => none
  | (x, _) :: rest => if x = id then some 0 else (rowIn id rest).map (· + 1)

/-- the line below the line -/
def nextIn (id : LineId) : List (LineId × Text) → Option LineId
  | [] => none
  | (x, _) :: rest => if x = id then rest.head?.map (·.1) else nextIn id rest

/-- the line above the line, `above` if that is the first one -/
def previousIn (id : LineId) (above : Option LineId) : List (LineId × Text) → Option LineId
  | [] => none
  | (x, _) :: rest => if x = id then above else previousIn id (some x) rest

/-- the bytes of the lines above the line, each with a line feed -/
def offsetIn (id : LineId) : List (LineId × Text) → Option Nat
  | [] => none
  | (x, text) :: rest => if x = id then some 0 else (offsetIn id rest).map (Text.width text + 1 + ·)

/-- what a walk down the list tells of a line -/
def sight (p : Plain) (id : LineId) : Sight where
  row := rowIn id p.lines
  next := nextIn id p.lines
  previous := previousIn id none p.lines
  offset := offsetIn id p.lines
  text := p.lines.lookup id

/-- other lines in the place of the line `id` -/
def replace (id : LineId) (lines : Text → List (LineId × Text)) (all : List (LineId × Text)) : List (LineId × Text) :=
  all.flatMap fun line => if line.1 = id then lines line.2 else [line]

/-- new lines with the next ids -/
def fresh (p : Plain) (texts : List Text) : List (LineId × Text) :=
  texts.zipIdx.map fun (text, i) => (⟨p.nextId + i⟩, text)

/-- the ids handed out if new lines with the texts are made -/
def afterNew (p : Plain) (texts : List Text) : Nat := p.nextId + texts.length

/-- a new line above all others -/
def insertFirst (p : Plain) (text : Text) : Plain := ⟨p.fresh [text] ++ p.lines, p.afterNew [text]⟩

/-- new lines below a line -/
def insertAfter (p : Plain) (id : LineId) (texts : List Text) : Plain :=
  ⟨replace id (fun text => (id, text) :: p.fresh texts) p.lines, p.afterNew texts⟩

/-- a new line above a line -/
def insertBefore (p : Plain) (id : LineId) (text : Text) : Plain :=
  ⟨replace id (fun old => p.fresh [text] ++ [(id, old)]) p.lines, p.afterNew [text]⟩

/-- another text for a line -/
def setText (p : Plain) (id : LineId) (text : Text) : Plain :=
  { p with lines := replace id (fun _ => [(id, text)]) p.lines }

/-- without a line; the only line is emptied instead -/
def remove (p : Plain) (id : LineId) : Plain :=
  if p.lines.length = 1 then p.setText id [] else { p with lines := replace id (fun _ => []) p.lines }

/-- whether the rows can be taken out: they are there, and others are -/
def Removable (p : Plain) (first last : Nat) : Prop :=
  first ≤ last ∧ last < p.lines.length ∧ last - first + 1 < p.lines.length

instance (p : Plain) (first last : Nat) : Decidable (p.Removable first last) :=
  inferInstanceAs (Decidable (_ ∧ _ ∧ _))

/-- one edit or look-up whose line is there -/
def apply (p : Plain) : Edit → Answer × Plain
  | .look id => (.sight (p.sight id), p)
  | .setText id text => (.done true, p.setText id text)
  | .insertFirst text | .insertAfter none text => (.line (some ⟨p.nextId⟩), p.insertFirst text)
  | .insertAfter (some id) text => (.line (some ⟨p.nextId⟩), p.insertAfter id [text])
  | .insertBefore id text => (.line (some ⟨p.nextId⟩), p.insertBefore id text)
  | .insertLinesAfter id texts => (.lines (some ((p.fresh texts).map (·.1))), p.insertAfter id texts)
  | .remove id => (.text (p.lines.lookup id), p.remove id)
  | .removeRows first last =>
    if p.Removable first last then
      (.removed ((p.lines.take (last + 1)).drop first), { p with lines := p.lines.take first ++ p.lines.drop (last + 1) })
    else (.removed [], p)

/-- one edit or look-up; it is refused if its line is not there -/
def perform (p : Plain) (edit : Edit) : Answer × Plain :=
  if ∀ id ∈ edit.target?, id ∈ p.ids then p.apply edit else (edit.refusal, p)

/-- one edit or look-up after the other, with the answers -/
def run (p : Plain) : List Edit → List Answer × Plain
  | [] => ([], p)
  | edit :: edits =>
    let (answer, p) := p.perform edit
    let (answers, p) := p.run edits
    (answer :: answers, p)

/-- the lines of a text -/
def ofText (text : Text) : Plain :=
  let start : Plain := ⟨[], 0⟩
  ⟨start.fresh (Text.splitLines text), start.afterNew (Text.splitLines text)⟩

end Plain

namespace Document

/-- what the look-ups of a document tell of a line -/
def sight (d : Document) (id : LineId) : Sight where
  row := d.row? id
  next := d.next? id
  previous := d.previous? id
  offset := d.position? id
  text := d.text? id

/-- one edit or look-up; a look-up may note rows anew -/
def perform (d : Document) : Edit → Answer × Document
  | .look id => (.sight (d.sight id), (d.locate id).2)
  | .setText id text => match d.setText? id text with
    | none => (.done false, d)
    | some e => (.done true, e)
  | .insertFirst text | .insertAfter none text =>
    let (id, e) := d.insertFirst text
    (.line (some id), e)
  | .insertAfter (some after) text => match d.insertAfter? after text with
    | none => (.line none, d)
    | some (id, e) => (.line (some id), e)
  | .insertBefore before text => match d.insertBefore? before text with
    | none => (.line none, d)
    | some (id, e) => (.line (some id), e)
  | .insertLinesAfter after texts => match d.insertLinesAfter? after texts with
    | none => (.lines none, d)
    | some (ids, e) => (.lines (some ids), e)
  | .remove id => match d.remove? id with
    | none => (.text none, d)
    | some (text, e) => (.text (some text), e)
  | .removeRows first last =>
    let (lines, e) := d.removeRows first last
    (.removed lines, e)

/-- one edit or look-up after the other, with the answers -/
def run (d : Document) : List Edit → List Answer × Document
  | [] => ([], d)
  | edit :: edits =>
    let (answer, d) := d.perform edit
    let (answers, d) := d.run edits
    (answer :: answers, d)

/-- some lines of a document with their texts -/
def shown (d : Document) (ids : List LineId) : List (LineId × Text) := ids.map fun id => (id, d.textOf id)

/-- the plain document that a document shows -/
def plain (d : Document) : Plain := ⟨d.shown d.order, d.nextId⟩

end Document

/-! ## Plain look-ups and edits at a split -/

theorem Document.freshIds_append (next first rest : Nat) :
    freshIds next first ++ freshIds (next + first) rest = freshIds next (first + rest) := by
  rw [freshIds, freshIds, freshIds, ← List.map_append, List.range'_append_1]

namespace Plain

section Split

variable {above below : List (LineId × Text)} {id : LineId} {text : Text}

theorem rowIn_split (h : id ∉ above.map (·.1)) : rowIn id (above ++ (id, text) :: below) = some above.length := by
  induction above with
  | nil => simp [rowIn]
  | cons line above ih =>
    simp only [List.map_cons, List.mem_cons, not_or] at h
    simp [rowIn, Ne.symm h.1, ih h.2]

theorem nextIn_split (h : id ∉ above.map (·.1)) :
    nextIn id (above ++ (id, text) :: below) = (below.map (·.1)).head? := by
  induction above with
  | nil => simp [nextIn]
  | cons line above ih =>
    simp only [List.map_cons, List.mem_cons, not_or] at h
    simpa [nextIn, Ne.symm h.1] using ih h.2

theorem previousIn_split (h : id ∉ above.map (·.1)) (before : Option LineId) :
    previousIn id before (above ++ (id, text) :: below) = (above.map (·.1)).getLast?.or before := by
  induction above generalizing before with
  | nil => simp [previousIn]
  | cons line above ih =>
    simp only [List.map_cons, List.mem_cons, not_or] at h
    simp [previousIn, Ne.symm h.1, ih h.2, List.getLast?_cons]

theorem offsetIn_split (h : id ∉ above.map (·.1)) :
    offsetIn id (above ++ (id, text) :: below) =
      some (above.foldr (fun line offset => Text.width line.2 + 1 + offset) 0) := by
  induction above with
  | nil => simp [offsetIn]
  | cons line above ih =>
    simp only [List.map_cons, List.mem_cons, not_or] at h
    simp [offsetIn, Ne.symm h.1, ih h.2]

theorem lookup_split (h : id ∉ above.map (·.1)) : (above ++ (id, text) :: below).lookup id = some text := by
  induction above with
  | nil => simp
  | cons line above ih =>
    simp only [List.map_cons, List.mem_cons, not_or] at h
    obtain ⟨key, old⟩ := line
    simp [List.lookup_cons, beq_false_of_ne h.1, ih h.2]

/-- a walk that does not meet the line tells nothing -/
theorem walks_eq_none (h : id ∉ above.map (·.1)) (before : Option LineId) :
    rowIn id above = none ∧ nextIn id above = none ∧ previousIn id before above = none ∧ offsetIn id above = none ∧
      above.lookup id = none := by
  induction above generalizing before with
  | nil => exact ⟨rfl, rfl, rfl, rfl, rfl⟩
  | cons line above ih =>
    obtain ⟨key, old⟩ := line
    simp only [List.map_cons, List.mem_cons, not_or] at h
    obtain ⟨hrow, hnext, hprevious, hoffset, htext⟩ := ih h.2 (some key)
    simp [rowIn, nextIn, previousIn, offsetIn, Ne.symm h.1, beq_false_of_ne h.1, List.lookup_cons, hrow, hnext, hprevious,
      hoffset, htext]

theorem replace_eq_self (f : Text → List (LineId × Text)) (h : id ∉ above.map (·.1)) : replace id f above = above := by
  induction above with
  | nil => rfl
  | cons line above ih =>
    simp only [List.map_cons, List.mem_cons, not_or] at h
    rw [replace, List.flatMap_cons, if_neg (Ne.symm h.1), ← replace, ih h.2]
    rfl

theorem replace_split (f : Text → List (LineId × Text)) (ha : id ∉ above.map (·.1)) (hb : id ∉ below.map (·.1)) :
    replace id f (above ++ (id, text) :: below) = above ++ f text ++ below := by
  have hcons : replace id f ((id, text) :: below) = f text ++ replace id f below := by simp [replace]
  have happend : replace id f (above ++ (id, text) :: below) = replace id f above ++ replace id f ((id, text) :: below) :=
    List.flatMap_append
  rw [happend, hcons, replace_eq_self f ha, replace_eq_self f hb, List.append_assoc]

end Split

variable {p : Plain}

theorem mem_replace {id : LineId} {f : Text → List (LineId × Text)} {lines : List (LineId × Text)} {x : LineId}
    (hx : x ∈ (replace id f lines).map (·.1)) :
    x ∈ lines.map (·.1) ∨ ∃ text, (id, text) ∈ lines ∧ x ∈ (f text).map (·.1) := by
  simp only [replace, List.mem_map, List.mem_flatMap] at hx
  obtain ⟨line, ⟨old, hold, hline⟩, rfl⟩ := hx
  by_cases ho : old.1 = id
  · rw [if_pos ho] at hline
    exact .inr ⟨old.2, ho ▸ hold, List.mem_map_of_mem hline⟩
  · rw [if_neg ho, List.mem_singleton] at hline
    exact .inl (hline ▸ List.mem_map_of_mem hold)

theorem ids_fresh (p : Plain) (texts : List Text) :
    (p.fresh texts).map (·.1) = Document.freshIds p.nextId texts.length := by
  refine List.ext_getElem (by simp [fresh]) fun i h1 h2 => ?_
  simp [fresh, Document.freshIds]

/-! ## Ids are handed out in order -/

/-- an edit hands out the next ids, as many as it uses up -/
theorem apply_created (p : Plain) (edit : Edit) :
    ∃ count, (p.apply edit).1.created = Document.freshIds p.nextId count ∧
      (p.apply edit).2.nextId = p.nextId + count := by
  cases edit with
  | look id => exact ⟨0, rfl, rfl⟩
  | setText id text => exact ⟨0, rfl, rfl⟩
  | insertFirst text => exact ⟨1, rfl, rfl⟩
  | insertAfter after text => cases after <;> exact ⟨1, rfl, rfl⟩
  | insertBefore before text => exact ⟨1, rfl, rfl⟩
  | insertLinesAfter after texts => exact ⟨texts.length, ids_fresh p texts, rfl⟩
  | remove id => exact ⟨0, rfl, by simp only [apply, remove]; split_ifs <;> rfl⟩
  | removeRows first last => simp only [apply]; split_ifs <;> exact ⟨0, rfl, rfl⟩

theorem perform_created (p : Plain) (edit : Edit) :
    ∃ count, (p.perform edit).1.created = Document.freshIds p.nextId count ∧
      (p.perform edit).2.nextId = p.nextId + count := by
  unfold perform
  split_ifs
  · exact p.apply_created edit
  · cases edit <;> exact ⟨0, rfl, rfl⟩

section Mem

variable {id x : LineId} {text : Text}

theorem le_of_mem_fresh {texts : List Text} (hx : x ∈ (p.fresh texts).map (·.1)) : p.nextId ≤ x.index := by
  rw [ids_fresh] at hx
  exact (Document.mem_freshIds.1 hx).1

theorem mem_insertFirst (hx : x ∈ (p.insertFirst text).ids) : x ∈ p.ids ∨ p.nextId ≤ x.index := by
  rw [ids, insertFirst, List.map_append, List.mem_append] at hx
  exact hx.symm.imp_right le_of_mem_fresh

theorem mem_insertAfter {texts : List Text} (hx : x ∈ (p.insertAfter id texts).ids) :
    x ∈ p.ids ∨ p.nextId ≤ x.index := by
  simp only [ids, insertAfter] at hx
  rcases mem_replace hx with hx | ⟨old, hold, hx⟩
  · exact .inl hx
  · rw [List.map_cons, List.mem_cons] at hx
    rcases hx with rfl | hx
    · exact .inl (List.mem_map_of_mem hold)
    · exact .inr (le_of_mem_fresh hx)

theorem mem_insertBefore (hx : x ∈ (p.insertBefore id text).ids) : x ∈ p.ids ∨ p.nextId ≤ x.index := by
  simp only [ids, insertBefore] at hx
  rcases mem_replace hx with hx | ⟨old, hold, hx⟩
  · exact .inl hx
  · rw [List.map_append, List.mem_append, List.map_singleton, List.mem_singleton] at hx
    rcases hx with hx | rfl
    · exact .inr (le_of_mem_fresh hx)
    · exact .inl (List.mem_map_of_mem hold)

theorem mem_setText (hx : x ∈ (p.setText id text).ids) : x ∈ p.ids := by
  simp only [ids, setText] at hx
  rcases mem_replace hx with hx | ⟨old, hold, hx⟩
  · exact hx
  · rw [List.map_singleton, List.mem_singleton] at hx
    subst hx
    exact List.mem_map_of_mem hold

theorem mem_remove (hx : x ∈ (p.remove id).ids) : x ∈ p.ids := by
  unfold remove at hx
  split_ifs at hx with hl
  · exact mem_setText hx
  · simp only [ids] at hx
    rcases mem_replace hx with hx | ⟨old, hold, hx⟩
    · exact hx
    · cases hx

end Mem

/-- a line is there after an edit only if it was there before or is new -/
theorem mem_apply {edit : Edit} {x : LineId} (hx : x ∈ (p.apply edit).2.ids) : x ∈ p.ids ∨ p.nextId ≤ x.index := by
  cases edit with
  | look id => exact .inl hx
  | setText id text => exact .inl (mem_setText hx)
  | insertFirst text => exact mem_insertFirst hx
  | insertAfter after text => cases after with
    | none => exact mem_insertFirst hx
    | some id => exact mem_insertAfter hx
  | insertBefore before text => exact mem_insertBefore hx
  | insertLinesAfter after texts => exact mem_insertAfter hx
  | remove id => exact .inl (mem_remove hx)
  | removeRows first last =>
    simp only [apply] at hx
    split_ifs at hx with hr
    · simp only [ids, List.map_append, List.mem_append, List.map_take, List.map_drop] at hx
      exact .inl (hx.elim List.mem_of_mem_take List.mem_of_mem_drop)
    · exact .inl hx

theorem mem_perform {edit : Edit} {x : LineId} (hx : x ∈ (p.perform edit).2.ids) : x ∈ p.ids ∨ p.nextId ≤ x.index := by
  unfold perform at hx
  split_ifs at hx
  · exact mem_apply hx
  · exact .inl hx

theorem run_created (p : Plain) (edits : List Edit) :
    ∃ count, (p.run edits).1.flatMap Answer.created = Document.freshIds p.nextId count ∧
      (p.run edits).2.nextId = p.nextId + count := by
  induction edits generalizing p with
  | nil => exact ⟨0, rfl, rfl⟩
  | cons edit edits ih =>
    obtain ⟨first, hfirst, hnext⟩ := p.perform_created edit
    obtain ⟨rest, hrest, hlast⟩ := ih (p.perform edit).2
    refine ⟨first + rest, ?_, ?_⟩
    · simp only [run, List.flatMap_cons]
      rw [hfirst, hrest, hnext, Document.freshIds_append]
    · simp only [run]
      rw [hlast, hnext, Nat.add_assoc]

/-- a line that is gone does not come back -/
theorem not_mem_run (edits : List Edit) {x : LineId} (hlt : x.index < p.nextId) (hx : x ∉ p.ids) :
    x ∉ (p.run edits).2.ids := by
  induction edits generalizing p with
  | nil => exact hx
  | cons edit edits ih =>
    obtain ⟨count, -, hnext⟩ := p.perform_created edit
    refine ih (p := (p.perform edit).2) (by omega) fun hm => ?_
    rcases mem_perform hm with hm | hge
    · exact hx hm
    · omega

end Plain

namespace Document

/-! ## Exact documents -/

/-- a well-formed document with a line, and with one slot for each line -/
structure Exact (d : Document) : Prop where
  wellFormed : d.WellFormed
  nonempty : d.order ≠ []
  keys : (d.slots.map (·.1)).Nodup

variable {d : Document}

theorem mem_keys (h : d.WellFormed) (id : LineId) : id ∈ d.slots.map (·.1) ↔ id ∈ d.order := by
  rw [h.mem_iff, slot?, mem_keys_iff_lookup]

theorem Exact.perm_keys (h : d.Exact) : (d.slots.map (·.1)).Perm d.order :=
  (List.perm_ext_iff_of_nodup h.keys h.wellFormed.nodup).2 (mem_keys h.wellFormed)

theorem keys_reindex (d : Document) : d.reindex.slots.map (·.1) = d.slots.map (·.1) := by
  simp only [reindex, List.map_map]
  apply List.map_congr_left
  intro entry _
  simp only [Function.comp]
  split <;> rfl

theorem keys_locate (d : Document) (id : LineId) : (d.locate id).2.slots.map (·.1) = d.slots.map (·.1) := by
  unfold locate
  split
  · rfl
  · split_ifs
    · rfl
    · exact keys_reindex d

theorem keys_setText? {id : LineId} {text : Text} {e : Document} (he : d.setText? id text = some e) :
    e.slots.map (·.1) = d.slots.map (·.1) := by
  unfold setText? at he
  split_ifs at he
  cases he
  simp only [List.map_map]
  apply List.map_congr_left
  intro entry _
  simp only [Function.comp]
  split_ifs <;> rfl

theorem SameLines.shown {e : Document} (h : SameLines d e) (ids : List LineId) : e.shown ids = d.shown ids := by
  simp only [Document.shown, h.textOf]

theorem SameLines.plain {e : Document} (h : SameLines d e) : e.plain = d.plain := by
  simp only [Document.plain, h.shown, h.order, h.nextId]

/-- the lines on both sides of a place in the order, as the plain document shows them -/
theorem plain_split {above below : List LineId} {id : LineId} (ho : d.order = above ++ id :: below) :
    d.plain = ⟨d.shown above ++ (id, d.textOf id) :: d.shown below, d.nextId⟩ := by
  simp [plain, shown, ho]

theorem ids_shown (d : Document) (ids : List LineId) : (d.shown ids).map (·.1) = ids := by
  simp [shown, Function.comp_def]

@[simp] theorem ids_plain (d : Document) : d.plain.ids = d.order := ids_shown d d.order

section Split

variable {above below : List LineId} {id : LineId}

theorem not_mem_shown_above (h : d.WellFormed) (ho : d.order = above ++ id :: below) :
    id ∉ (d.shown above).map (·.1) := by
  rw [ids_shown]
  exact not_mem_above h ho

theorem not_mem_shown_below (h : d.WellFormed) (ho : d.order = above ++ id :: below) :
    id ∉ (d.shown below).map (·.1) := by
  rw [ids_shown]
  exact not_mem_below h ho

theorem replace_plain (h : d.WellFormed) (ho : d.order = above ++ id :: below) (f : Text → List (LineId × Text)) :
    Plain.replace id f d.plain.lines = d.shown above ++ f (d.textOf id) ++ d.shown below := by
  rw [plain_split ho]
  exact Plain.replace_split f (not_mem_shown_above h ho) (not_mem_shown_below h ho)

theorem position?_of_split (h : d.WellFormed) (ho : d.order = above ++ id :: below) :
    d.position? id = some ((d.shown above).foldr (fun line offset => Text.width line.2 + 1 + offset) 0) := by
  simp only [position?, row?_of_split h ho, Option.map_some, ho, List.take_left, shown, List.foldr_map]

/-- the look-ups of a document tell what a walk down its lines tells -/
theorem sight_of_split (h : d.WellFormed) (ho : d.order = above ++ id :: below) : d.sight id = d.plain.sight id := by
  have ha := not_mem_shown_above h ho
  have hid : id ∈ d.order := by rw [ho]; simp
  simp only [sight, Plain.sight, plain_split ho, Plain.rowIn_split ha, Plain.nextIn_split ha, Plain.previousIn_split ha,
    Plain.offsetIn_split ha, Plain.lookup_split ha, ids_shown, row?_of_split h ho, next?_of_split h ho,
    previous?_of_split h ho, position?_of_split h ho, text?_eq_some h hid, Option.or_none]
  simp [shown]

end Split

theorem sight_eq_empty (h : d.WellFormed) {id : LineId} (hid : id ∉ d.order) : d.sight id = {} := by
  simp [sight, next?, previous?, position?, row?_eq_none h hid, text?_eq_none h hid]

theorem sight_plain (h : d.WellFormed) (id : LineId) : d.sight id = d.plain.sight id := by
  by_cases hid : id ∈ d.order
  · obtain ⟨above, below, ho⟩ := List.append_of_mem hid
    exact sight_of_split h ho
  · have hout : id ∉ d.plain.lines.map (·.1) := by
      rw [← Plain.ids, ids_plain]
      exact hid
    obtain ⟨hrow, hnext, hprevious, hoffset, htext⟩ := Plain.walks_eq_none hout none
    rw [sight_eq_empty h hid, Plain.sight, hrow, hnext, hprevious, hoffset, htext]

/-! ## One edit -/

/-- an outcome of a document and one of a plain document: same answer, same lines, and the document is exact -/
structure Refines (r : Answer × Document) (q : Answer × Plain) : Prop where
  answer : r.1 = q.1
  plain : r.2.plain = q.2
  exact : r.2.Exact

theorem Exact.locate (h : d.Exact) (id : LineId) : (d.locate id).2.Exact ∧ SameLines d (d.locate id).2 := by
  by_cases hid : id ∈ d.order
  · obtain ⟨row, hrow⟩ := List.mem_iff_getElem?.1 hid
    obtain ⟨e, he, hw, hs⟩ := locate_of_getElem? h.wellFormed hrow
    have hk := keys_locate d id
    rw [he] at hk ⊢
    exact ⟨⟨hw, by rw [hs.order]; exact h.nonempty, by rw [hk]; exact h.keys⟩, hs⟩
  · rw [locate_of_not_mem h.wellFormed hid]
    exact ⟨h, SameLines.refl d⟩

theorem Exact.locate_of_split (h : d.Exact) {above below : List LineId} {id : LineId}
    (ho : d.order = above ++ id :: below) :
    ∃ e, d.locate id = (some above.length, e) ∧ e.Exact ∧ SameLines d e := by
  obtain ⟨e, he, -, hs⟩ := Document.locate_of_split h.wellFormed ho
  have hexact := (h.locate id).1
  rw [he] at hexact
  exact ⟨e, he, hexact, hs⟩

theorem Exact.setText? (h : d.Exact) {above below : List LineId} {id : LineId} (ho : d.order = above ++ id :: below)
    (text : Text) : ∃ e, d.setText? id text = some e ∧ e.Exact ∧ e.plain = d.plain.setText id text := by
  have hid : id ∈ d.order := by rw [ho]; simp
  obtain ⟨e, he, hw, horder, hnext, htext⟩ := setText?_spec h.wellFormed hid text
  refine ⟨e, he, ⟨hw, by rw [horder]; exact h.nonempty, by rw [keys_setText? he]; exact h.keys⟩, ?_⟩
  have hshown : ∀ ids, id ∉ ids → e.shown ids = d.shown ids := by
    intro ids hout
    apply List.map_congr_left
    intro x hx
    have hne : x ≠ id := fun he => hout (he ▸ hx)
    rw [htext, if_neg hne]
  rw [plain_split (horder.trans ho), hshown above (not_mem_above h.wellFormed ho),
    hshown below (not_mem_below h.wellFormed ho), htext, if_pos rfl, hnext, Plain.setText,
    replace_plain h.wellFormed ho]
  simp [plain]

theorem Inserted.shown {above ids below : List LineId} {texts : List Text} {e : Document}
    (hi : Inserted d above ids below texts e) {part : List LineId} (hp : ∀ x ∈ part, x ∈ d.order) :
    e.shown part = d.shown part := by
  apply List.map_congr_left
  intro x hx
  rw [hi.kept x (hp x hx)]

/-- new lines at a place of the order -/
theorem Exact.insertAt (h : d.Exact) {above below : List LineId} (ho : d.order = above ++ below) (texts : List Text) :
    ∃ e, d.insertAt above.length texts = (freshIds d.nextId texts.length, e) ∧ e.Exact ∧
      e.plain = ⟨d.shown above ++ d.plain.fresh texts ++ d.shown below, d.plain.afterNew texts⟩ := by
  obtain ⟨e, he, hi⟩ := insertAt_of_split h.wellFormed ho texts
  have hrecord := insertAt_eq d (show above.length ≤ d.order.length by simp [ho]) texts
  rw [he, Prod.mk.injEq] at hrecord
  have hkeys : e.slots.map (·.1) = d.slots.map (·.1) ++ freshIds d.nextId texts.length := by
    rw [hrecord.2, ← keys_newSlots d.nextId texts above.length, List.map_append]
  have hnext : e.nextId = d.nextId + texts.length := by rw [hrecord.2]
  refine ⟨e, he, ⟨hi.wellFormed, ?_, ?_⟩, ?_⟩
  · have hne := h.nonempty
    rw [ho] at hne
    rw [hi.order]
    simp only [ne_eq, List.append_eq_nil_iff] at hne ⊢
    tauto
  · rw [hkeys, List.nodup_append]
    refine ⟨h.keys, nodup_freshIds _ _, ?_⟩
    rintro x hx y hy rfl
    exact not_mem_of_mem_freshIds h.wellFormed x hy ((mem_keys h.wellFormed x).1 hx)
  · have hfresh : e.shown (freshIds d.nextId texts.length) = d.plain.fresh texts := by
      rw [shown, List.map_prod_left_eq_zip, hi.written]
      refine List.ext_getElem (by simp [Plain.fresh]) fun i h1 h2 => ?_
      simp [freshIds, Plain.fresh, plain]
    have habove : e.shown above = d.shown above := hi.shown fun x hx => by rw [ho]; simp [hx]
    have hbelow : e.shown below = d.shown below := hi.shown fun x hx => by rw [ho]; simp [hx]
    have hshown : e.shown e.order = d.shown above ++ d.plain.fresh texts ++ d.shown below := by
      rw [hi.order, ← habove, ← hbelow, ← hfresh]
      simp [shown]
    rw [plain, hshown, hnext]
    rfl

/-- the same, in a document whose notes alone were renewed -/
theorem SameLines.insertAt {e : Document} (hs : SameLines d e) (h : e.Exact) {above below : List LineId}
    (ho : d.order = above ++ below) (texts : List Text) :
    ∃ f, e.insertAt above.length texts = (freshIds d.nextId texts.length, f) ∧ f.Exact ∧
      f.plain = ⟨d.shown above ++ d.plain.fresh texts ++ d.shown below, d.plain.afterNew texts⟩ := by
  obtain ⟨f, hf, hexact, hplain⟩ := h.insertAt (hs.order.trans ho) texts
  rw [hs.shown, hs.shown, hs.plain] at hplain
  rw [hs.nextId] at hf
  exact ⟨f, hf, hexact, hplain⟩

/-- lines taken out at a place of the order -/
theorem Exact.forget (h : d.Exact) {above hidden below : List LineId} (ho : d.order = above ++ hidden ++ below)
    (hne : above ++ below ≠ []) {e : Document}
    (he : e = ({ d with order := above ++ below }.distrust above.length).forget hidden) :
    e.Exact ∧ e.plain = ⟨d.shown above ++ d.shown below, d.nextId⟩ := by
  subst he
  have hr := forget_spec h.wellFormed ho
  refine ⟨⟨hr.wellFormed, hne, ?_⟩, ?_⟩
  · exact h.keys.sublist (List.filter_sublist.map _)
  · have hshown : ∀ part, (∀ x ∈ part, x ∈ above ++ below) →
        (({ d with order := above ++ below }.distrust above.length).forget hidden).shown part = d.shown part := by
      intro part hp
      apply List.map_congr_left
      intro x hx
      rw [hr.kept x (hp x hx)]
    rw [plain, hr.order, hshown _ fun x hx => hx]
    simp [shown, Document.forget, distrust]

theorem perform_of_not_mem (h : d.WellFormed) {edit : Edit} {id : LineId} (ht : edit.target? = some id)
    (hid : id ∉ d.order) : d.perform edit = (edit.refusal, d) := by
  cases edit with
  | look x =>
    cases ht
    simp only [perform, sight_eq_empty h hid, locate_of_not_mem h hid, Edit.refusal]
  | setText x text =>
    cases ht
    simp only [perform, setText?_eq_none h hid, Edit.refusal]
  | insertFirst text => cases ht
  | insertAfter after text =>
    cases ht
    simp only [perform, insertAfter?_eq_none h hid, Edit.refusal]
  | insertBefore before text =>
    cases ht
    simp only [perform, insertBefore?_eq_none h hid, Edit.refusal]
  | insertLinesAfter after texts =>
    cases ht
    simp only [perform, insertLinesAfter?_eq_none h hid, Edit.refusal]
  | remove x =>
    cases ht
    simp only [perform, remove?_eq_none h hid, Edit.refusal]
  | removeRows first last => cases ht

theorem insertFirst_refines (h : d.Exact) (text : Text) :
    Refines (d.perform (.insertFirst text)) (d.plain.apply (.insertFirst text)) := by
  obtain ⟨e, he, hexact, hplain⟩ := (SameLines.refl d).insertAt h (List.nil_append d.order).symm [text]
  simp only [perform, insertFirst, insertOne]
  rw [List.length_nil] at he
  rw [he]
  exact ⟨rfl, hplain, hexact⟩

theorem remove_refines (h : d.Exact) {id : LineId} (hid : id ∈ d.order) :
    Refines (d.perform (.remove id)) (d.plain.apply (.remove id)) := by
  obtain ⟨above, below, ho⟩ := List.append_of_mem hid
  obtain ⟨e, he, hexact, hs⟩ := h.locate_of_split ho
  have hlookup : d.plain.lines.lookup id = some (d.textOf id) := by
    rw [plain_split ho]
    exact Plain.lookup_split (not_mem_shown_above h.wellFormed ho)
  have hlen : d.plain.lines.length = e.order.length := by simp [plain, shown, hs.order]
  simp only [perform, remove?, he, Plain.apply, Plain.remove, hlookup, hlen, hs.textOf]
  split_ifs with hl
  · obtain ⟨f, hf, hexact', hplain⟩ := hexact.setText? (hs.order.trans ho) []
    simp only [hf, Option.map_some]
    exact ⟨rfl, by rw [hplain, hs.plain], hexact'⟩
  · have ho' : e.order = above ++ [id] ++ below := by rw [hs.order, ho]; simp
    have hne : above ++ below ≠ [] := by
      intro hnil
      obtain ⟨rfl, rfl⟩ := List.append_eq_nil_iff.1 hnil
      exact hl (by rw [ho']; rfl)
    have herase : e.order.eraseIdx above.length = above ++ below := by
      rw [hs.order, ho, List.eraseIdx_append_of_length_le (by omega)]
      simp
    rw [herase]
    obtain ⟨hexact', hplain⟩ := hexact.forget ho' hne rfl
    refine ⟨rfl, ?_, hexact'⟩
    rw [hplain, hs.shown, hs.shown, hs.nextId, replace_plain h.wellFormed ho]
    simp [plain]

theorem removeRows_refines (h : d.Exact) (first last : Nat) :
    Refines (d.perform (.removeRows first last)) (d.plain.apply (.removeRows first last)) := by
  have hlen : d.plain.lines.length = d.order.length := by simp [plain, shown]
  simp only [perform, removeRows, Plain.apply, Plain.Removable, hlen]
  by_cases hr : first ≤ last ∧ last < d.order.length ∧ last - first + 1 < d.order.length
  · rw [if_neg (by omega), if_pos hr]
    have hcut : (d.order.drop first).take (last - first + 1) = (d.order.take (last + 1)).drop first := by
      rw [List.drop_take]
      congr 1
      omega
    have ho := order_cut d hr.1
    have hfirst : (d.order.take first).length = first := by
      rw [List.length_take]
      omega
    have hne : d.order.take first ++ d.order.drop (last + 1) ≠ [] := by
      intro hnil
      have := congrArg List.length hnil
      simp only [List.length_append, List.length_take, List.length_drop, List.length_nil] at this
      omega
    obtain ⟨hexact, hplain⟩ := h.forget ho hne rfl
    rw [hfirst] at hexact hplain
    refine ⟨?_, ?_, hexact⟩
    · simp only [hcut, plain, shown, List.map_take, List.map_drop]
    · rw [hplain]
      simp only [plain, shown, List.map_take, List.map_drop]
  · rw [if_pos (by omega), if_neg hr]
    exact ⟨rfl, rfl, h⟩

/-- one edit or look-up whose line is there -/
theorem apply_refines (h : d.Exact) {edit : Edit} (ht : ∀ id ∈ edit.target?, id ∈ d.order) :
    Refines (d.perform edit) (d.plain.apply edit) := by
  cases edit with
  | look id =>
    obtain ⟨hexact, hs⟩ := h.locate id
    exact ⟨congrArg Answer.sight (sight_plain h.wellFormed id), hs.plain, hexact⟩
  | setText id text =>
    obtain ⟨above, below, ho⟩ := List.append_of_mem (ht id rfl)
    obtain ⟨e, he, hexact, hplain⟩ := h.setText? ho text
    simp only [perform, he]
    exact ⟨rfl, hplain, hexact⟩
  | insertFirst text => exact insertFirst_refines h text
  | insertAfter after text => cases after with
    | none => exact insertFirst_refines h text
    | some id =>
      obtain ⟨above, below, ho⟩ := List.append_of_mem (ht id rfl)
      obtain ⟨e, he, hexact, hs⟩ := h.locate_of_split ho
      have ho' : d.order = (above ++ [id]) ++ below := by rw [ho]; simp
      obtain ⟨f, hf, hexact', hplain⟩ := hs.insertAt hexact ho' [text]
      rw [List.length_append, List.length_singleton] at hf
      simp only [perform, insertAfter?, he, insertOne, hf, hs.nextId]
      refine ⟨rfl, ?_, hexact'⟩
      simp only [Plain.apply, Plain.insertAfter, replace_plain h.wellFormed ho, hplain]
      simp [shown]
  | insertBefore before text =>
    obtain ⟨above, below, ho⟩ := List.append_of_mem (ht before rfl)
    obtain ⟨e, he, hexact, hs⟩ := h.locate_of_split ho
    obtain ⟨f, hf, hexact', hplain⟩ := hs.insertAt hexact ho [text]
    simp only [perform, insertBefore?, he, insertOne, hf, hs.nextId]
    refine ⟨rfl, ?_, hexact'⟩
    simp only [Plain.apply, Plain.insertBefore, replace_plain h.wellFormed ho, hplain]
    simp [shown]
  | insertLinesAfter after texts =>
    obtain ⟨above, below, ho⟩ := List.append_of_mem (ht after rfl)
    obtain ⟨e, he, hexact, hs⟩ := h.locate_of_split ho
    have ho' : d.order = (above ++ [after]) ++ below := by rw [ho]; simp
    obtain ⟨f, hf, hexact', hplain⟩ := hs.insertAt hexact ho' texts
    rw [List.length_append, List.length_singleton] at hf
    simp only [perform, insertLinesAfter?, he, hf]
    refine ⟨?_, ?_, hexact'⟩
    · simp only [Plain.apply, Plain.ids_fresh]
      rfl
    · simp only [Plain.apply, Plain.insertAfter, replace_plain h.wellFormed ho, hplain]
      simp [shown]
  | remove id => exact remove_refines h (ht id rfl)
  | removeRows first last => exact removeRows_refines h first last

/-- **One edit or look-up of an exact document.** It answers as the plain document does and leaves its lines, and the
document stays exact. -/
theorem perform_refines (h : d.Exact) (edit : Edit) : Refines (d.perform edit) (d.plain.perform edit) := by
  unfold Plain.perform
  split_ifs with ht
  · exact apply_refines h (by simpa using ht)
  · simp only [ids_plain, not_forall] at ht
    obtain ⟨id, htarget, hid⟩ := ht
    rw [perform_of_not_mem h.wellFormed htarget hid]
    exact ⟨rfl, rfl, h⟩

/-! ## Runs -/

theorem plain_ofText (text : Text) : (ofText text).plain = Plain.ofText text := by
  have hi := ofText_spec text
  have hnext : (ofText text).nextId = (Text.splitLines text).length := by
    simp [ofText, allocateAll_eq]
  have hshown : (ofText text).shown (ofText text).order =
      (⟨[], 0⟩ : Plain).fresh (Text.splitLines text) := by
    rw [hi.order, List.nil_append, List.append_nil, shown, List.map_prod_left_eq_zip, hi.written]
    refine List.ext_getElem (by simp [Plain.fresh]) fun i h1 h2 => ?_
    simp [freshIds, Plain.fresh]
  rw [plain, hshown, hnext, Plain.ofText, Plain.afterNew, Nat.zero_add]

theorem order_ofText (text : Text) : (ofText text).order = freshIds 0 (Text.splitLines text).length := by
  rw [(ofText_spec text).order, List.nil_append, List.append_nil]

theorem exact_ofText (text : Text) : (ofText text).Exact where
  wellFormed := (ofText_spec text).wellFormed
  nonempty := by
    rw [order_ofText]
    intro hnil
    have := congrArg List.length hnil
    rw [length_freshIds, List.length_nil, List.length_eq_zero_iff] at this
    exact Text.splitLines_ne_nil text this
  keys := by
    have hkeys : (ofText text).slots.map (·.1) = freshIds 0 (Text.splitLines text).length := by
      simp [ofText, allocateAll_eq, keys_newSlots]
    rw [hkeys]
    exact nodup_freshIds _ _

theorem run_refines (h : d.Exact) (edits : List Edit) :
    (d.run edits).1 = (d.plain.run edits).1 ∧ (d.run edits).2.plain = (d.plain.run edits).2 ∧
      (d.run edits).2.Exact := by
  induction edits generalizing d with
  | nil => exact ⟨rfl, rfl, h⟩
  | cons edit edits ih =>
    obtain ⟨hanswer, hplain, hexact⟩ := perform_refines h edit
    obtain ⟨hanswers, hplains, hexacts⟩ := ih hexact
    rw [hplain] at hanswers hplains
    exact ⟨by simp only [run, Plain.run]; rw [hanswer, hanswers], hplains, hexacts⟩

/-- a document that is exact, read as the plain document it shows: its order has no line twice and at least one line,
exactly the lines have slots, one each; a line has row `i` exactly if the order has it at `i`; row, neighbours, offset
and text are what a walk down the plain list tells; what concerns a line that is not there is refused -/
structure Shows (d : Document) (p : Plain) : Prop where
  plain : d.plain = p
  nodup : d.order.Nodup
  nonempty : d.order ≠ []
  slots : (d.slots.map (·.1)).Perm d.order
  lt_next : ∀ id ∈ d.order, id.index < d.nextId
  row?_iff : ∀ id i, d.row? id = some i ↔ d.order[i]? = some id
  sight : ∀ id, d.sight id = p.sight id
  refused : ∀ edit id, edit.target? = some id → id ∉ d.order → d.perform edit = (edit.refusal, d)

theorem Exact.shows (h : d.Exact) : d.Shows d.plain where
  plain := rfl
  nodup := h.wellFormed.nodup
  nonempty := h.nonempty
  slots := h.perm_keys
  lt_next := h.wellFormed.lt_next
  row?_iff _ _ := ⟨getElem?_of_row? h.wellFormed, row?_of_getElem? h.wellFormed⟩
  sight := sight_plain h.wellFormed
  refused _ _ := perform_of_not_mem h.wellFormed

theorem Exact.not_mem_run (h : d.Exact) (edits : List Edit) {id : LineId} (hlt : id.index < d.nextId)
    (hid : id ∉ d.order) : id ∉ (d.run edits).2.order := by
  rw [← ids_plain, (run_refines h edits).2.1]
  exact Plain.not_mem_run edits hlt (by rw [ids_plain]; exact hid)

/-- **A document refines a plain list of lines.** Every run of edits and look-ups from a text gives the answers that the
plain document gives, and leaves a document that shows what the plain one is then. The ids of the lines of the text and
of all lines made since are the numbers below the next id, each once; and a line that is gone does not come back. -/
theorem run_plain (text : Text) (edits : List Edit) :
    ((ofText text).run edits).1 = ((Plain.ofText text).run edits).1 ∧
    Shows ((ofText text).run edits).2 ((Plain.ofText text).run edits).2 ∧
    (ofText text).order ++ ((ofText text).run edits).1.flatMap Answer.created =
      freshIds 0 ((ofText text).run edits).2.nextId ∧
    ∀ more id, id.index < ((ofText text).run edits).2.nextId → id ∉ ((ofText text).run edits).2.order →
      id ∉ (((ofText text).run edits).2.run more).2.order := by
  obtain ⟨hanswers, hplain, hexact⟩ := run_refines (exact_ofText text) edits
  rw [plain_ofText] at hanswers hplain
  refine ⟨hanswers, hplain ▸ hexact.shows, ?_, fun more _ => hexact.not_mem_run more⟩
  obtain ⟨count, hcreated, hnext⟩ := (Plain.ofText text).run_created edits
  have hstart : (Plain.ofText text).nextId = 0 + (Text.splitLines text).length := rfl
  have hlast : ((ofText text).run edits).2.nextId = (Plain.ofText text).nextId + count := by
    rw [← hnext, ← hplain]
    rfl
  rw [order_ofText, hanswers, hcreated, hlast, hstart, freshIds_append, Nat.zero_add]

end Document

end Linewise
