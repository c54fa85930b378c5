/-
Documents: an ordered list of lines, each with an id that it keeps.

Looking up the row of a line is made fast by a row noted with each line. Edits do not bring the notes up to date; they
only lower `indexed`, below which the notes are exact, and a look-up that finds a wrong note renews those above it
(`Document.locate`). Ids are handed out in order and never again.
-/
import Linewise.Line.Id
import Linewise.Text.Basic

namespace Linewise

/-- a line: its text and the row noted for it -/
structure Slot where
  text : Text
  row : Nat
  deriving DecidableEq, Repr

/-- lines in order; the rows noted for the first `indexed` lines are exact -/
structure Document where
  slots : List (LineId × Slot) := []
  order : List LineId := []
  indexed : Nat := 0
  nextId : Nat := 0
  deriving DecidableEq, Repr

namespace Document

/-- what is kept for a line -/
def slot? (d : Document) (id : LineId) : Option Slot := d.slots.lookup id

/-- the text of a line -/
def text? (d : Document) (id : LineId) : Option Text := (d.slot? id).map (·.text)

/-- the text of a line, empty if there is no such line -/
def textOf (d : Document) (id : LineId) : Text := (d.text? id).getD []

/-- the byte length of a line -/
def width? (d : Document) (id : LineId) : Option Nat := (d.text? id).map Text.width

/-- whether the line is in the document -/
def contains (d : Document) (id : LineId) : Bool := (d.slot? id).isSome

/-- how many lines there are -/
def lineCount (d : Document) : Nat := d.order.length

/-- the texts of the lines in order -/
def lines (d : Document) : List Text := d.order.map d.textOf

/-- the whole text, with a line feed between lines -/
def text (d : Document) : Text := Text.joinLines d.lines

/-- the first line -/
def first? (d : Document) : Option LineId := d.order.head?

/-- the last line -/
def last? (d : Document) : Option LineId := d.order.getLast?

/-- the line at a row -/
def lineAt? (d : Document) (row : Nat) : Option LineId := d.order[row]?

/-! ## Rows -/

/-- renew the rows noted for all lines from row `indexed` on -/
def reindex (d : Document) : Document :=
  let exact := min d.indexed d.order.length
  let renew : LineId × Slot → LineId × Slot := fun (id, slot) =>
    match (d.order.drop exact).idxOf? id with
    | none => (id, slot)
    | some below => (id, { slot with row := exact + below })
  { d with slots := d.slots.map renew, indexed := d.order.length }

/-- the row of a line, and the document with the notes renewed if the one for the line was wrong -/
def locate (d : Document) (id : LineId) : Option Nat × Document :=
  match d.slot? id with
  | none => (none, d)
  | some slot =>
    if d.order[slot.row]? = some id then (some slot.row, d)
    else
      let d := d.reindex
      ((d.slot? id).bind fun slot => if d.order[slot.row]? = some id then some slot.row else none, d)

/-- the row of a line -/
def row? (d : Document) (id : LineId) : Option Nat := (d.locate id).1

/-- the line below -/
def next? (d : Document) (id : LineId) : Option LineId :=
  (d.row? id).bind fun row => d.order[row + 1]?

/-- the line above -/
def previous? (d : Document) (id : LineId) : Option LineId :=
  (d.row? id).bind fun row => if row = 0 then none else d.order[row - 1]?

/-- byte offset of a line in the whole text -/
def position? (d : Document) (id : LineId) : Option Nat :=
  (d.row? id).map fun row =>
    (d.order.take row).foldr (fun above offset => Text.width (d.textOf above) + 1 + offset) 0

/-- the notes from `row` on may be wrong -/
def distrust (d : Document) (row : Nat) : Document := { d with indexed := min d.indexed row }

/-! ## Edits -/

/-- keep a new line that will stand at `row` -/
def allocate (d : Document) (text : Text) (row : Nat) : LineId × Document :=
  let id : LineId := ⟨d.nextId⟩
  (id, { d with slots := d.slots ++ [(id, ⟨text, row⟩)], nextId := d.nextId + 1 })

/-- keep new lines that will stand at `row` and below -/
def allocateAll (d : Document) : List Text → Nat → List LineId × Document
  | [], _ => ([], d)
  | text :: texts, row =>
    let (id, d) := d.allocate text row
    let (ids, d) := d.allocateAll texts (row + 1)
    (id :: ids, d)

/-- new lines at `row` and below -/
def insertAt (d : Document) (row : Nat) (texts : List Text) : List LineId × Document :=
  let row := min row d.order.length
  let (ids, d) := d.allocateAll texts row
  (ids, { d with order := d.order.take row ++ ids ++ d.order.drop row }.distrust (row + ids.length))

/-- the lines of a text -/
def ofText (text : Text) : Document :=
  let (ids, d) := allocateAll {} (Text.splitLines text) 0
  { d with order := ids, indexed := ids.length }

/-- one empty line -/
def blank : Document := ofText []

/-- replace the text of a line -/
def setText? (d : Document) (id : LineId) (text : Text) : Option Document :=
  if d.contains id then
    some { d with slots := d.slots.map fun (key, slot) => if key = id then (key, { slot with text }) else (key, slot) }
  else none

/-- new lines below a line -/
def insertLinesAfter? (d : Document) (after : LineId) (texts : List Text) : Option (List LineId × Document) :=
  match d.locate after with
  | (none, _) => none
  | (some row, d) => some (d.insertAt (row + 1) texts)

/-- one new line at `row` -/
def insertOne (d : Document) (row : Nat) (text : Text) : LineId × Document :=
  (⟨d.nextId⟩, (d.insertAt row [text]).2)

/-- a new line at the top -/
def insertFirst (d : Document) (text : Text) : LineId × Document := d.insertOne 0 text

/-- a new line below a line -/
def insertAfter? (d : Document) (after : LineId) (text : Text) : Option (LineId × Document) :=
  match d.locate after with
  | (none, _) => none
  | (some row, d) => some (d.insertOne (row + 1) text)

/-- a new line above a line -/
def insertBefore? (d : Document) (before : LineId) (text : Text) : Option (LineId × Document) :=
  match d.locate before with
  | (none, _) => none
  | (some row, d) => some (d.insertOne row text)

/-- forget lines -/
def forget (d : Document) (ids : List LineId) : Document :=
  { d with slots := d.slots.filter fun (id, _) => !ids.contains id }

/-- take out a line; the only line of a document is emptied instead -/
def remove? (d : Document) (id : LineId) : Option (Text × Document) :=
  match d.locate id with
  | (none, _) => none
  | (some row, d) =>
    let text := d.textOf id
    if d.order.length = 1 then (d.setText? id []).map (text, ·)
    else some (text, ({ d with order := d.order.eraseIdx row }.distrust row).forget [id])

/-- take out the rows `first` to `last`; nothing happens if there are no such rows or no others -/
def removeRows (d : Document) (first last : Nat) : List (LineId × Text) × Document :=
  if last < first ∨ d.order.length ≤ last ∨ last - first + 1 = d.order.length then ([], d)
  else
    let removed := (d.order.drop first).take (last - first + 1)
    let order := d.order.take first ++ d.order.drop (last + 1)
    (removed.map fun id => (id, d.textOf id), ({ d with order }.distrust first).forget removed)

end Document

end Linewise
