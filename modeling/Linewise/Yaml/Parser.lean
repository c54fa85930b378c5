/-
Reading YAML into a tree of data: mappings and lists by indentation or between brackets, and scalars.

The reader knows the part of YAML that grammars are written in. Anchors, tags, directives, block scalars and keys that
are no scalars are refused, as is all that YAML itself refuses.
-/
import Linewise.Yaml.Scalar

namespace Linewise.Yaml

open Data (Node)

/-- the node of a scalar -/
def scalarNode (text : Text) (quoted : Bool) : Node := .scalar (.untyped text quoted)

/-- a scalar, plain or quoted -/
def readScalar (flow : Bool) (least : Nat) (s : Scan) : Option (Node × Scan) :=
  if atQuote s then (readQuoted s).map fun (text, s) => (scalarNode text true, s)
  else if startsPlain flow s then (readPlain flow least s).map fun (text, s) => (scalarNode text false, s)
  else none

/-! ## Between brackets -/

mutual

/-- a node between brackets. The first argument bounds the depth and the number of parts. -/
def readFlow : Nat → Scan → Option (Node × Scan)
  | 0, _ => none
  | fuel + 1, s =>
    match s.peek with
    | some '[' => readFlowList fuel [] s.next.inside
    | some '\x7B' => readFlowMap fuel [] s.next.inside
    | _ => if s.atMarker then none else readScalar true 0 s

/-- the items of a list up to its closing bracket -/
def readFlowList : Nat → List Node → Scan → Option (Node × Scan)
  | 0, _, _ => none
  | fuel + 1, items, s =>
    if s.peek = some ']' then some (.list items.reverse false, s.next)
    else
      match readFlowItem fuel s with
      | none => none
      | some (item, s) =>
        match s.inside.peek with
        | some ',' => readFlowList fuel (item :: items) s.inside.next.inside
        | some ']' => some (.list (item :: items).reverse false, s.inside.next)
        | _ => none

/-- an item of a list: a node, or a mapping of one key without its brackets -/
def readFlowItem : Nat → Scan → Option (Node × Scan)
  | 0, _ => none
  | fuel + 1, s =>
    match readFlow fuel s with
    | none => none
    | some (item, s) =>
      if s.inside.peek = some ':' then
        match item.text?, readFlowValue fuel s.inside.next.inside with
        | some key, some (value, s) => some (.map [(key, value)], s)
        | _, _ => none
      else some (item, s)

/-- the value of a key, which may be missing -/
def readFlowValue : Nat → Scan → Option (Node × Scan)
  | 0, _ => none
  | fuel + 1, s =>
    if s.peek.any fun c => c == ',' || c == ']' || c == '\x7D' then some (.absent, s) else readFlow fuel s

/-- the entries of a mapping up to its closing bracket -/
def readFlowMap : Nat → List (Text × Node) → Scan → Option (Node × Scan)
  | 0, _, _ => none
  | fuel + 1, entries, s =>
    if s.peek = some '\x7D' then some (.map entries.reverse, s.next)
    else
      match readFlow fuel s with
      | none => none
      | some (key, s) =>
        let s := s.inside
        let value := if s.peek = some ':' then readFlowValue fuel s.next.inside else some (.absent, s)
        match key.text?, value with
        | some key, some (value, s) =>
          match s.inside.peek with
          | some ',' => readFlowMap fuel ((key, value) :: entries) s.inside.next.inside
          | some '\x7D' => some (.map ((key, value) :: entries).reverse, s.inside.next)
          | _ => none
        | _, _ => none

end

/-- whether a list or mapping between brackets begins here -/
def atBracket (s : Scan) : Bool := s.peek == some '[' || s.peek == some '\x7B'

/-! ## By indentation -/

/-- a key, if one stands here: a scalar in one line, with a colon behind it -/
def readKey (s : Scan) : Option (Text × Scan) := do
  let (key, after) ← if atQuote s then readQuoted s else if startsPlain false s then some (readPlainPart false s) else none
  let after := after.skipWhile Text.isIndent
  let taken := s.rest.take (s.rest.length - after.rest.length)
  if after.atColon && !taken.contains '\n' then some (key, after.next) else none

/-- the rest of a line with a node on it that is neither a mapping nor a list by indentation -/
def readInline (least : Nat) (s : Scan) : Option (Node × Scan) := do
  let (node, s) ← if atBracket s then readFlow (2 * s.rest.length + 2) s else readScalar false least s
  let s ← s.finishLine
  return (node, s)

mutual

/-- a node that begins in column `least` or beyond, or a list that begins in column `leastList` or beyond; nothing, if
the next part stands before that. The first argument bounds the depth and the number of parts. -/
def readBlock : Nat → Nat → Nat → Scan → Option (Node × Scan)
  | 0, _, _, _ => none
  | fuel + 1, least, leastList, s =>
    if s.atEnd then some (.absent, s)
    else if s.atDash then
      if leastList ≤ s.column then readList fuel s.column [] s else some (.absent, s)
    else if s.column < least then some (.absent, s)
    else
      match readKey s with
      | some _ => readMap fuel s.column [] s
      | none => readInline least s

/-- the items of a list whose marks stand in the column -/
def readList : Nat → Nat → List Node → Scan → Option (Node × Scan)
  | 0, _, _, _ => none
  | fuel + 1, column, items, s =>
    if s.atDash && s.column == column && !s.atEnd then
      match s.next.toPart s.rest.length with
      | none => none
      | some s =>
        match readBlock fuel (column + 1) (column + 1) s with
        | none => none
        | some (item, s) => readList fuel column (item :: items) s
    else some (.list items.reverse false, s)

/-- the entries of a mapping whose keys stand in the column -/
def readMap : Nat → Nat → List (Text × Node) → Scan → Option (Node × Scan)
  | 0, _, _, _ => none
  | fuel + 1, column, entries, s =>
    if s.atEnd || s.column < column then some (.map entries.reverse, s)
    else if column < s.column then none
    else
      match readKey s with
      | none => none
      | some (key, s) =>
        match readValue fuel column s with
        | none => none
        | some (value, s) => readMap fuel column ((key, value) :: entries) s

/-- the value behind a key in the column: on the same line, or below -/
def readValue : Nat → Nat → Scan → Option (Node × Scan)
  | 0, _, _ => none
  | fuel + 1, column, s =>
    match s.finishLine with
    | some below => readBlock fuel (column + 1) column below
    | none =>
      let s := s.skipWhile Text.isIndent
      if s.atDash then none else readInline (column + 1) s

end

/-! ## Documents -/

/-- line ends of every kind as line feeds -/
def normalize : Text → Text
  | [] => []
  | '\r' :: '\n' :: rest => '\n' :: normalize rest
  | c :: rest => (if c = '\r' then '\n' else c) :: normalize rest

/-- characters that may stand in a YAML text -/
def isPrintable (c : Char) : Bool :=
  let n := c.toNat
  c == '\t' || c == '\n' || (0x20 ≤ n && n != 0x7F && !(0x80 ≤ n && n < 0xA0 && n != 0x85) && n != 0xFFFE && n != 0xFFFF)

/-- move over the marker in front of a document -/
def skipMarker (s : Scan) : Option Scan :=
  if s.atMarker && s.peek == some '-' then
    let s := (⟨s.rest.drop 3, 3⟩ : Scan)
    match s.finishLine with
    | some below => some below
    | none => some (s.skipWhile Text.isIndent)
  else some s

/-- whether nothing follows a document but markers of its end -/
def atDocumentEnd (s : Scan) : Bool :=
  if s.atMarker && s.peek == some '.' then
    (Scan.finishLine ⟨s.rest.drop 3, 3⟩).any (·.rest.isEmpty)
  else s.rest.isEmpty

/-- the tree of a text with one document -/
def parse? (source : Text) : Option Node := do
  let source := if source.head? = some '\uFEFF' then source.drop 1 else source
  let text := normalize source
  if text.all isPrintable then
    let s ← Scan.toPart (text.length + 1) ⟨text, 0⟩
    let s ← skipMarker s
    let (node, s) ← readBlock (2 * text.length + 4) 0 0 s
    if atDocumentEnd s then some node else none
  else none

end Linewise.Yaml
