/-
No hidden text is lost, duplicated or moved.

The expanded text of a sheet is that of its lines, each followed by the texts hidden behind it. Moves that edit nothing
leave it as it is (`Effect.expanded`); what an edit makes of it is said once, by `TextEffect`. Both rest on the
snapshots kept with lines being attached: proper trees that hide something (`Effect.proper`).

`expandAll_spec`: expanding all lines brings back the expanded text. The bound on the lines visited is exact: each visit
takes one line off the lines still to come, hidden ones included.
-/
import Linewise.Proofs.Line.Snapshot
import Linewise.Proofs.Session.Walk

namespace Linewise

/-- the texts of rows, each followed by those hidden behind it -/
def textsOfRows (rows : List Row) : List Text := rows.flatMap Row.texts

/-- the text of a sheet if nothing were hidden -/
def Sheet.expanded (s : Sheet) : List Text := textsOfRows s.rows

/-- a line by its id, with its text and the texts hidden behind it -/
def Row.block (r : Row) : LineId × List Text := (r.id, r.texts)

/-- what a line hides is kept in a proper tree -/
def Row.Proper (r : Row) : Prop := ∀ snapshot, r.state.snapshot = some snapshot → snapshot.Attached

/-! ## Texts of rows -/

@[simp] theorem textsOfRows_nil : textsOfRows [] = [] := rfl

@[simp] theorem textsOfRows_cons (r : Row) (rows : List Row) :
    textsOfRows (r :: rows) = r.texts ++ textsOfRows rows := by
  simp [textsOfRows]

@[simp] theorem textsOfRows_append (above below : List Row) :
    textsOfRows (above ++ below) = textsOfRows above ++ textsOfRows below := by
  simp [textsOfRows]

namespace Row

@[simp] theorem texts_dirtied (r : Row) : r.dirtied.texts = r.texts := rfl

@[simp] theorem texts_new (id : LineId) (text : Text) : (new id text).texts = [text] := rfl

@[simp] theorem texts_opened (r : Row) : r.opened.texts = [r.text] := rfl

@[simp] theorem texts_rewritten (r : Row) (text : Text) : (r.rewritten text).texts = text :: r.hidden := rfl

@[simp] theorem hidden_analyzed (g : Grammar) (ignores : IgnoreRule) (incoming : RuleId) (r : Row) :
    (r.analyzed g ignores incoming).hidden = r.hidden := by
  simp only [hidden, analyzed, Option.map_map, Function.comp_def, Snapshot.hiddenTexts_carry]

@[simp] theorem texts_analyzed (g : Grammar) (ignores : IgnoreRule) (incoming : RuleId) (r : Row) :
    (r.analyzed g ignores incoming).texts = r.texts := by
  simp only [texts, hidden_analyzed]
  rfl

@[simp] theorem texts_handed (range : RuleId) (r : Row) : (r.handed range).texts = r.texts := by
  unfold handed
  split_ifs <;> rfl

theorem block_handed (range : RuleId) (r : Row) : (r.handed range).block = r.block := by
  unfold handed
  split_ifs <;> rfl

theorem textsOf_kept (rows : List Row) : Snapshot.textsOf (rows.map kept) = textsOfRows rows := by
  rw [Snapshot.textsOf_eq_flatMap, textsOfRows, List.flatMap_map]
  congr 1
  funext r
  rw [Snapshot.hiddenTexts_eq, texts, hidden, ← LineState.textsOf_children]
  rfl

@[simp] theorem hidden_covering (r : Row) (rows : List Row) :
    (r.covering rows).hidden = r.hidden ++ textsOfRows rows := by
  simp only [hidden, covering, Option.map_some, Option.getD_some, Snapshot.hiddenTexts_extend, textsOf_kept]

@[simp] theorem texts_covering (r : Row) (rows : List Row) : (r.covering rows).texts = r.texts ++ textsOfRows rows := by
  simp only [texts, hidden_covering, List.cons_append]
  rfl

theorem mem_restored {ids : List LineId} {lines : List (Text × Option Snapshot)} {r : Row}
    (hr : r ∈ restored ids lines) :
    ∃ line ∈ lines, r.state.dirty = true ∧ r.state.snapshot = line.2 := by
  rw [restored, ← List.map_uncurry_zip_eq_zipWith] at hr
  obtain ⟨pair, hpair, rfl⟩ := List.mem_map.1 hr
  exact ⟨pair.2, (List.of_mem_zip hpair).2, rfl, rfl⟩

theorem id_mem_restored {ids : List LineId} {lines : List (Text × Option Snapshot)} {r : Row}
    (hr : r ∈ restored ids lines) : r.id ∈ ids := by
  rw [restored, ← List.map_uncurry_zip_eq_zipWith] at hr
  obtain ⟨pair, hpair, rfl⟩ := List.mem_map.1 hr
  exact (List.of_mem_zip hpair).1

theorem texts_restored {ids : List LineId} {lines : List (Text × Option Snapshot)} (hl : ids.length = lines.length) :
    textsOfRows (restored ids lines) = lines.flatMap Snapshot.lineTexts := by
  induction ids generalizing lines with
  | nil =>
    cases List.length_eq_zero_iff.1 hl.symm
    rfl
  | cons id ids ih =>
    cases lines with
    | nil => cases hl
    | cons line lines =>
      have hlen : ids.length = lines.length := by simpa using hl
      have hrest := ih hlen
      simp only [restored] at hrest
      simp only [restored, List.zipWith_cons_cons, textsOfRows_cons, List.flatMap_cons, hrest]
      rfl

end Row

@[simp] theorem textsOfRows_dirtyFirst (rows : List Row) : textsOfRows (dirtyFirst rows) = textsOfRows rows := by
  cases rows <;> simp [dirtyFirst]

@[simp] theorem textsOfRows_handTo (range : RuleId) (rows : List Row) :
    textsOfRows (handTo range rows) = textsOfRows rows := by
  cases rows <;> simp [handTo]

/-! ## What moves make of the texts -/

/-- what a row hides, a row of the same line among `rows` hid before: the same trees with the same tallies -/
def Row.Inherits (rows : List Row) (r : Row) : Prop :=
  ∀ snapshot, r.state.snapshot = some snapshot → ∃ old ∈ rows, old.id = r.id ∧
    ∃ before, old.state.snapshot = some before ∧ snapshot.children = before.children ∧ snapshot.tallies = before.tallies

theorem forall_modifyHead {P : Row → Prop} {f : Row → Row} (hf : ∀ r, P r → P (f r)) {rows : List Row}
    (h : ∀ r ∈ rows, P r) : ∀ r ∈ rows.modifyHead f, P r := by
  cases rows with
  | nil => exact h
  | cons first rows =>
    simp only [List.modifyHead_cons, List.forall_mem_cons] at h ⊢
    exact ⟨hf first h.1, h.2⟩

namespace Row.Inherits

variable {rows : List Row} {r : Row}

theorem of_mem (h : r ∈ rows) : r.Inherits rows := fun snapshot hs => ⟨r, h, rfl, snapshot, hs, rfl, rfl⟩

theorem of_no_snapshot (h : r.state.snapshot = none) : r.Inherits rows := by
  intro snapshot hs
  rw [h] at hs
  cases hs

theorem dirtied (h : r.Inherits rows) : r.dirtied.Inherits rows := h

theorem handed (range : RuleId) (h : r.Inherits rows) : (r.handed range).Inherits rows := by
  unfold Row.handed
  split_ifs
  · exact h
  · exact h.dirtied

theorem analyzed (g : Grammar) (ignores : IgnoreRule) (incoming : RuleId) (h : r.Inherits rows) :
    (r.analyzed g ignores incoming).Inherits rows := by
  intro snapshot hs
  obtain ⟨carried, hcarried, rfl⟩ := Option.map_eq_some_iff.1 hs
  exact h carried hcarried

end Row.Inherits

/-- whether a move hides lines or brings them back -/
def Move.folds : Move → Bool
  | hide _ _ | expand _ _ => true
  | _ => false

/-- a move that folds nothing leaves what lines hide with them -/
theorem Effect.inherits {g : Grammar} {ignores : IgnoreRule} {m : Move} {rows rows' : List Row}
    (he : Effect g ignores m rows rows') (hm : m.folds = false) : ∀ r ∈ rows', r.Inherits rows := by
  have hall : ∀ r ∈ rows, r.Inherits rows := fun r hr => .of_mem hr
  have hfirst : ∀ below : List Row, (∀ r ∈ below, r.Inherits rows) → ∀ r ∈ dirtyFirst below, r.Inherits rows :=
    fun _ hb => forall_modifyHead (fun _ hr => hr.dirtied) hb
  cases he with
  | quiet | unknown => exact hall
  | analyze above r below =>
    rw [List.forall_mem_append, List.forall_mem_cons] at hall ⊢
    exact ⟨hall.1, hall.2.1.analyzed g ignores _, forall_modifyHead (fun _ hr => hr.handed _) hall.2.2⟩
  | setText above r below text =>
    rw [List.forall_mem_append, List.forall_mem_cons] at hall ⊢
    exact ⟨hall.1, hall.2.1, hall.2.2⟩
  | insertFirst _ id text =>
    rw [List.forall_mem_cons]
    exact ⟨.of_no_snapshot rfl, hfirst _ hall⟩
  | insertAfter above r below id text =>
    rw [List.forall_mem_append, List.forall_mem_cons] at hall
    rw [List.forall_mem_append, List.forall_mem_cons, List.forall_mem_cons]
    exact ⟨hall.1, hall.2.1, .of_no_snapshot rfl, hfirst _ hall.2.2⟩
  | insertBefore above r below id text =>
    rw [List.forall_mem_append, List.forall_mem_cons] at hall
    rw [List.forall_mem_append, List.forall_mem_cons, List.forall_mem_cons]
    exact ⟨hall.1, .of_no_snapshot rfl, hall.2.1.dirtied, hall.2.2⟩
  | remove above r below =>
    rw [List.forall_mem_append, List.forall_mem_cons] at hall
    rw [List.forall_mem_append]
    exact ⟨hall.1, hfirst _ hall.2.2⟩
  | removeOnly r =>
    rw [List.forall_mem_singleton]
    exact .of_no_snapshot rfl
  | ignore _ rule =>
    intro r hr
    obtain ⟨old, hold, rfl⟩ := List.mem_map.1 hr
    exact (hall old hold).dirtied
  | _ => cases hm

namespace Row.Proper

variable {r : Row}

theorem dirtied (h : r.Proper) : r.dirtied.Proper := h

theorem of_no_snapshot (h : r.state.snapshot = none) : r.Proper := by
  intro snapshot hs
  rw [h] at hs
  cases hs

theorem of_inherits {rows : List Row} (h : r.Inherits rows) (hp : ∀ x ∈ rows, x.Proper) : r.Proper := by
  intro snapshot hs
  obtain ⟨old, hold, _, before, hbefore, hchildren, _⟩ := h snapshot hs
  have ha := hp old hold before hbefore
  exact ⟨hchildren ▸ ha.children, hchildren ▸ ha.proper⟩

theorem covering {rows : List Row} (hne : rows ≠ []) (h : r.Proper) (hrows : ∀ x ∈ rows, x.Proper) :
    (r.covering rows).Proper := by
  intro snapshot hs
  cases hs
  refine Snapshot.extend_attached h _ (by simpa using hne) ?_ _
  intro child hc
  obtain ⟨x, hx, rfl⟩ := List.mem_map.1 hc
  exact LineState.toSnapshot_proper (hrows x hx) x.text

theorem restored {snapshot : Snapshot} (hs : snapshot.Attached) (deep : Bool) (ids : List LineId) :
    ∀ x ∈ Row.restored ids (Snapshot.restoredAll deep snapshot.children), x.Proper := by
  intro x hx inner hinner
  obtain ⟨line, hline, _, hsnapshot⟩ := Row.mem_restored hx
  exact Snapshot.restoredAll_attached hs.proper hline (hsnapshot ▸ hinner)

/-- the lines that come back hold what was hidden -/
theorem texts_restored (h : r.Proper) {snapshot : Snapshot} (hs : r.state.snapshot = some snapshot) {deep : Bool}
    {ids : List LineId} (hl : ids.length = (Snapshot.restoredAll deep snapshot.children).length) :
    textsOfRows (Row.restored ids (Snapshot.restoredAll deep snapshot.children)) = r.hidden := by
  rw [Row.texts_restored hl, Snapshot.texts_restoredAll deep (h snapshot hs).proper, Row.hidden, hs]
  exact (Snapshot.hiddenTexts_eq snapshot).symm

end Row.Proper

namespace Effect

variable {g : Grammar} {ignores : IgnoreRule} {m : Move} {rows rows' : List Row}

/-- what lines hide stays in proper trees -/
theorem proper (he : Effect g ignores m rows rows') (h : ∀ r ∈ rows, r.Proper) : ∀ r ∈ rows', r.Proper := by
  have hfirst : ∀ below : List Row, (∀ r ∈ below, r.Proper) → ∀ r ∈ dirtyFirst below, r.Proper := fun _ hb =>
    forall_modifyHead (fun _ hr => hr.dirtied) hb
  by_cases hm : m.folds = false
  · exact fun r hr => .of_inherits (he.inherits hm r hr) h
  cases he with
  | quiet | unknown | hideRefused => exact h
  | hide above r hidden last below =>
    obtain ⟨hkept, hbelow⟩ := List.forall_mem_append.1 h
    obtain ⟨habove, hspan⟩ := List.forall_mem_append.1 hkept
    obtain ⟨hr, hhidden⟩ := List.forall_mem_cons.1 hspan
    rw [List.forall_mem_append, List.forall_mem_cons]
    exact ⟨habove, .covering (by simp) hr hhidden, hfirst _ hbelow⟩
  | expandFlat above r below deep hs =>
    rw [List.forall_mem_append, List.forall_mem_cons] at h ⊢
    exact h
  | expand above r below deep snapshot ids hs =>
    rw [List.forall_mem_append, List.forall_mem_cons] at h
    rw [List.forall_mem_append, List.forall_mem_cons, List.forall_mem_append]
    exact ⟨h.1, .of_no_snapshot rfl, .restored (h.2.1 snapshot hs) deep ids, hfirst _ h.2.2⟩
  | _ => exact absurd rfl hm

/-- **A move that edits nothing leaves the expanded text as it is.** -/
theorem expanded (he : Effect g ignores m rows rows') (h : ∀ r ∈ rows, r.Proper) (hm : m.isNeutral = true) :
    textsOfRows rows' = textsOfRows rows := by
  cases he with
  | quiet | unknown | hideRefused => rfl
  | analyze above r below => simp
  | hide above r hidden last below => simp
  | expandFlat above r below deep hs => simp
  | expand above r below deep snapshot ids hs hl =>
    have hr : r.Proper := h r (by simp)
    have hback := hr.texts_restored hs hl
    calc textsOfRows (above ++ r.opened ::
            (Row.restored ids (Snapshot.restoredAll deep snapshot.children) ++ dirtyFirst below))
        _ = textsOfRows above ++ ([r.text] ++ (r.hidden ++ textsOfRows below)) := by
          rw [textsOfRows_append, textsOfRows_cons, textsOfRows_append, textsOfRows_dirtyFirst, Row.texts_opened, hback]
        _ = textsOfRows (above ++ r :: below) := by
          rw [textsOfRows_append, textsOfRows_cons]
          rfl
  | _ => cases hm

/-- a move that only reads leaves the texts hidden behind each line where they are -/
theorem blocks (he : Effect g ignores m rows rows') (hm : m.isReading = true) :
    rows'.map Row.block = rows.map Row.block := by
  cases he with
  | quiet | unknown => rfl
  | analyze above r below =>
    have hr : ∀ incoming, (r.analyzed g ignores incoming).block = r.block := fun incoming =>
      Prod.ext rfl (Row.texts_analyzed g ignores incoming r)
    have hb : ∀ range, (handTo range below).map Row.block = below.map Row.block := by
      intro range
      cases below with
      | nil => rfl
      | cons first below =>
        simp only [handTo, List.modifyHead_cons, List.map_cons, Row.block_handed]
    simp only [List.map_append, List.map_cons, hr, hb]
  | _ => cases hm

end Effect

namespace Session

variable {s t : Session}

/-- what lines hide is kept in proper trees -/
def Proper (s : Session) : Prop := ∀ r ∈ s.rows, r.Proper

theorem act_proper (h : s.WellFormed) (hp : s.Proper) {m : Move} (ha : s.Allows m) : (s.act m).Proper :=
  (act_effect h.sheet m ha).1.proper hp

theorem start_proper (grammar : Grammar) (document : Document) : (start grammar document).Proper := by
  intro r hr
  rw [start_rows] at hr
  obtain ⟨id, _, rfl⟩ := List.mem_map.1 hr
  exact .of_no_snapshot rfl

theorem Reachable.proper (h : Reachable s) : s.Proper :=
  (h.invariant (fun grammar document _ => start_proper grammar document) fun _ _ hw hp ha => act_proper hw hp ha).2

theorem Leads.proper {ok : Move → Prop} (hl : Leads ok s t) (h : s.WellFormed) (hp : s.Proper) : t.Proper :=
  (hl.invariant (fun _ _ hw hp _ ha => act_proper hw hp ha) h hp).2

/-- moves that edit nothing leave the expanded text as it is -/
theorem Leads.expanded (hl : Leads (·.isNeutral) s t) (h : s.WellFormed) (hp : s.Proper) :
    t.expanded = s.expanded := by
  induction hl with
  | refl => rfl
  | @tail t m hl hm ha ih =>
    have he := (act_effect (hl.wellFormed h).sheet m ha).1
    exact (he.expanded (hl.proper h hp) hm).trans ih

theorem Leads.blocks (hl : Leads (·.isReading) s t) (h : s.WellFormed) :
    t.rows.map Row.block = s.rows.map Row.block := by
  induction hl with
  | refl => rfl
  | @tail t m hl hm ha ih =>
    have he := (act_effect (hl.wellFormed h).sheet m ha).1
    exact (he.blocks hm).trans ih

end Session

/-! ## What operations make of the texts -/

namespace Op

/-- the line that an operation edits or puts a line next to, where it does nothing if there is no such line -/
def line? : Op → Option LineId
  | setText line _ | insertBefore line _ | remove line | indentLine line _ => some line
  | insertAfter line _ => line
  | _ => none

/-- the move that an edit consists of -/
def move? : Op → Option Move
  | setText line text => some (.setText line text)
  | insertAfter line text => some (.insertAfter line text)
  | insertBefore line text => some (.insertBefore line text)
  | remove line => some (.remove line)
  | _ => none

end Op

/-- what an operation makes of the expanded text, given the rows it finds -/
inductive TextEffect : Op → List Row → List Text → Prop where
  | neutral {op : Op} (rows : List Row) (hop : op.isNeutral = true) : TextEffect op rows (textsOfRows rows)
  | unknown {op : Op} (rows : List Row) (line : LineId) (hop : op.line? = some line) (hl : ∀ r ∈ rows, r.id ≠ line) :
    TextEffect op rows (textsOfRows rows)
  | setText (above : List Row) (r : Row) (below : List Row) (text : Text) :
    TextEffect (.setText r.id text) (above ++ r :: below) (textsOfRows above ++ text :: r.hidden ++ textsOfRows below)
  | indentLine (above : List Row) (r : Row) (below : List Row) (caret : Option Nat) (text : Text) :
    TextEffect (.indentLine r.id caret) (above ++ r :: below)
      (textsOfRows above ++ text :: r.hidden ++ textsOfRows below)
  | insertFirst (rows : List Row) (text : Text) : TextEffect (.insertAfter none text) rows (text :: textsOfRows rows)
  | insertAfter (above : List Row) (r : Row) (below : List Row) (text : Text) :
    TextEffect (.insertAfter (some r.id) text) (above ++ r :: below)
      (textsOfRows above ++ r.texts ++ text :: textsOfRows below)
  | insertBefore (above : List Row) (r : Row) (below : List Row) (text : Text) :
    TextEffect (.insertBefore r.id text) (above ++ r :: below)
      (textsOfRows above ++ text :: r.texts ++ textsOfRows below)
  | remove (above : List Row) (r : Row) (below : List Row) (hne : above ++ below ≠ []) :
    TextEffect (.remove r.id) (above ++ r :: below) (textsOfRows above ++ textsOfRows below)
  | removeOnly (r : Row) : TextEffect (.remove r.id) [r] [[]]

/-- the texts after an edit, read off its move -/
theorem Effect.textEffect {g : Grammar} {ignores : IgnoreRule} {op : Op} {m : Move} {rows rows' : List Row}
    (hm : op.move? = some m) (he : Effect g ignores m rows rows') : TextEffect op rows (textsOfRows rows') := by
  cases op with
  | setText line text =>
    cases hm
    cases he with
    | quiet _ hq => cases hq
    | unknown _ line' hl hout => exact .unknown _ line' hl hout
    | setText above r below => simpa using TextEffect.setText above r below text
  | insertAfter line text =>
    cases hm
    cases he with
    | quiet _ hq => cases hq
    | unknown _ line' hl hout => exact .unknown _ line' hl hout
    | insertFirst _ id => simpa using TextEffect.insertFirst _ text
    | insertAfter above r below id => simpa using TextEffect.insertAfter above r below text
  | insertBefore line text =>
    cases hm
    cases he with
    | quiet _ hq => cases hq
    | unknown _ line' hl hout => exact .unknown _ line' hl hout
    | insertBefore above r below id => simpa using TextEffect.insertBefore above r below text
  | remove line =>
    cases hm
    cases he with
    | quiet _ hq => cases hq
    | unknown _ line' hl hout => exact .unknown _ line' hl hout
    | remove above r below hne => simpa using TextEffect.remove above r below hne
    | removeOnly r => exact TextEffect.removeOnly r
  | _ => cases hm

namespace Session

variable {s : Session}

theorem step_of_move? {op : Op} {m : Move} (hm : op.move? = some m) : s.step op = s.act m ∧ s.Allows m := by
  cases op <;> cases hm <;> exact ⟨rfl, trivial⟩

/-- rewriting a line of a session whose rows hold the same texts -/
theorem textEffect_indentLine {rows : List Row} {line : LineId} {text : Text} {texts : List Text} (caret : Option Nat)
    {rows' : List Row} (hb : rows'.map Row.block = rows.map Row.block)
    (he : TextEffect (.setText line text) rows' texts) : TextEffect (.indentLine line caret) rows texts := by
  have hsame : ∀ {l l' : List Row}, l'.map Row.block = l.map Row.block → textsOfRows l' = textsOfRows l := by
    intro l l' h
    have hmap : ∀ l : List Row, textsOfRows l = (l.map Row.block).flatMap (·.2) := by
      intro l
      rw [textsOfRows, List.flatMap_map]
      rfl
    rw [hmap, hmap, h]
  cases he with
  | neutral _ hop => cases hop
  | unknown _ line hop hl =>
    rw [hsame hb]
    refine .unknown rows line hop ?_
    intro r hr
    have hmem : r.block ∈ rows'.map Row.block := hb ▸ List.mem_map_of_mem hr
    obtain ⟨r', hr', hid⟩ := List.mem_map.1 hmem
    have hid' : r'.id = r.id := congrArg Prod.fst hid
    rw [← hid']
    exact hl r' hr'
  | setText above' r' below' =>
    rw [List.map_append, List.map_cons] at hb
    obtain ⟨above, rest, rfl, habove, hrest⟩ := List.map_eq_append_iff.1 hb.symm
    obtain ⟨r, below, rfl, hr, hbelow⟩ := List.map_eq_cons_iff.1 hrest
    have hid : r.id = r'.id := congrArg Prod.fst hr
    have hhidden : r.hidden = r'.hidden := congrArg (fun block => block.2.tail) hr
    rw [hsame habove.symm, hsame hbelow.symm, ← hhidden, ← hid]
    exact .indentLine above r below caret text

theorem textEffect_indentLine_same (rows : List Row) (line : LineId) (caret : Option Nat) :
    TextEffect (.indentLine line caret) rows (textsOfRows rows) := by
  by_cases hl : ∃ r ∈ rows, r.id = line
  · obtain ⟨r, hr, rfl⟩ := hl
    obtain ⟨above, below, rfl⟩ := List.append_of_mem hr
    have he := TextEffect.indentLine above r below caret r.text
    have htexts : textsOfRows (above ++ r :: below) = textsOfRows above ++ r.text :: r.hidden ++ textsOfRows below := by
      simp [Row.texts]
    rwa [htexts]
  · exact .unknown rows line rfl fun r hr hid => hl ⟨r, hr, hid⟩

/-- **Every operation changes the expanded text as `TextEffect` says.** -/
theorem step_textEffect (h : s.WellFormed) (hp : s.Proper) (op : Op) : TextEffect op s.rows (s.step op).expanded := by
  by_cases hop : op.isNeutral = true
  · rw [(neutral_leads h hop).expanded h hp]
    exact .neutral s.rows hop
  cases hm : op.move? with
  | some m =>
    obtain ⟨hs, ha⟩ := step_of_move? (s := s) hm
    rw [hs]
    exact (act_effect h.sheet m ha).1.textEffect hm
  | none =>
    cases op with
    | indentLine line caret =>
      obtain ⟨t, ht, hstep⟩ := indentLine_leads h line caret
      have hs : s.step (.indentLine line caret) = (s.indentLine line caret).2 := rfl
      have htw := ht.wellFormed h
      rcases hstep with hstep | ⟨text, hstep⟩
      · rw [hs, hstep, ht.neutral.expanded h hp]
        exact textEffect_indentLine_same s.rows line caret
      · rw [hs, hstep]
        have he := (act_effect htw.sheet (.setText line text) trivial).1
        exact textEffect_indentLine caret (ht.blocks h) (he.textEffect rfl)
    | _ => first | exact absurd rfl hop | cases hm

/-! ## Expanding all lines -/

theorem expandedCount_eq (s : Session) : s.expandedCount = s.expanded.length := by
  have hone : ∀ id, 1 + ((s.table.get? id).map (·.hiddenCount)).getD 0 = (s.row id).texts.length := by
    intro id
    simp only [Sheet.row, Row.texts, Row.hidden, List.length_cons, LineTable.entry]
    cases s.table.get? id with
    | none => rfl
    | some state =>
      simp only [Option.map_some, Option.getD_some, LineState.hiddenCount]
      cases state.snapshot with
      | none => rfl
      | some snapshot => simp [Snapshot.length_hiddenTexts, Nat.add_comm]
  rw [expandedCount, Sheet.expanded, Sheet.rows]
  induction s.document.order with
  | nil => rfl
  | cons id ids ih =>
    rw [List.foldr_cons, ih, hone, List.map_cons, textsOfRows_cons, List.length_append]

/-- the line below, read off the rows -/
theorem next?_of_rows (h : s.toSheet.WellFormed) {above below : List Row} {r : Row}
    (hr : s.rows = above ++ r :: below) :
    s.document.next? r.id = below.head?.map (·.id) := by
  have ho : s.document.order = above.map (·.id) ++ r.id :: below.map (·.id) := by
    rw [← Sheet.map_id_rows, hr]
    simp
  rw [Document.next?_of_split h.document ho, List.head?_map]

/-- expanding a collapsed line that is visited: the lines that come back are next -/
theorem expand_visited (h : s.WellFormed) (hp : s.Proper) {above below : List Row} {r : Row}
    (hr : s.rows = above ++ r :: below) (hc : r.state.snapshot ≠ none) :
    ∃ ids rest, (s.expand r.id false).1 = .ok ids ∧ (s.act (.expand r.id false)).rows = (above ++ [r.opened]) ++ rest ∧
      textsOfRows rest = r.hidden ++ textsOfRows below := by
  obtain ⟨snapshot, hs⟩ := Option.ne_none_iff_exists'.1 hc
  have hrow : s.row r.id = r := Sheet.row_id (by rw [hr]; simp)
  have hmem : ∀ x ∈ above ++ below, x ∈ s.rows := by
    intro x hx
    rw [hr]
    rcases List.mem_append.1 hx with hx | hx <;> simp [hx]
  have ho : s.document.order = above.map (·.id) ++ r.id :: below.map (·.id) := by
    rw [← Sheet.map_id_rows, hr]
    simp
  obtain ⟨ids, hok, hlen, _, _, _, hrows⟩ := expand_rows h.sheet ho false (by rw [hrow]; exact hs)
  rw [Sheet.map_row_id fun x hx => hmem x (List.mem_append_left _ hx),
    Sheet.map_row_id fun x hx => hmem x (List.mem_append_right _ hx), hrow] at hrows
  refine ⟨ids, Row.restored ids (Snapshot.restoredAll false snapshot.children) ++ dirtyFirst below, hok, ?_, ?_⟩
  · rw [List.append_assoc]
    exact hrows
  · have hproper : r.Proper := hp r (by rw [hr]; simp)
    rw [textsOfRows_append, textsOfRows_dirtyFirst, hproper.texts_restored hs hlen]

/-- visiting a line leaves nothing hidden behind it: what it hid is below it, before the lines that were there -/
theorem expandVisit_row (h : s.WellFormed) (hp : s.Proper) {above below : List Row} {r : Row}
    (hr : s.rows = above ++ r :: below) :
    ∃ answer t opened rest, expandVisit s r.id = some (answer, t) ∧ t.WellFormed ∧ t.Proper ∧
      t.rows = (above ++ [opened]) ++ rest ∧ opened.id = r.id ∧ opened.state.snapshot = none ∧
      textsOfRows rest = r.hidden ++ textsOfRows below := by
  have hcollapsed : s.table.isCollapsed r.id = r.state.snapshot.isSome := by
    have hrow : s.row r.id = r := Sheet.row_id (by rw [hr]; simp)
    rw [LineTable.isCollapsed_eq]
    exact congrArg (fun row => row.state.snapshot.isSome) hrow
  by_cases hc : r.state.snapshot = none
  · have hvisit : expandVisit s r.id = some (0, s) := by
      rw [expandVisit, if_neg (by simp [hcollapsed, hc])]
    have hhidden : r.hidden = [] := by rw [Row.hidden, hc]; rfl
    exact ⟨0, s, r, below, hvisit, h, hp, by rw [hr]; simp, rfl, hc, by rw [hhidden, List.nil_append]⟩
  · obtain ⟨ids, rest, hok, hrows, htexts⟩ := expand_visited h hp hr hc
    have hexpand : s.expand r.id false = (.ok ids, s.act (.expand r.id false)) := Prod.ext hok rfl
    have hvisit : expandVisit s r.id = some (1, s.act (.expand r.id false)) := by
      rw [expandVisit, if_pos (by simp [hcollapsed, Option.isSome_iff_ne_none, hc])]
      simp only [hexpand]
    exact ⟨1, _, r.opened, rest, hvisit, act_wellFormed h trivial, act_proper h hp trivial, hrows, rfl, rfl, htexts⟩

/-- a walk that expands lines visits each line to come once, hidden ones included, and leaves nothing hidden there -/
theorem exists_walk_expand (h : s.WellFormed) (hp : s.Proper) {above rest : List Row} (hr : s.rows = above ++ rest)
    {visits : Nat} (hv : (textsOfRows rest).length = visits) :
    ∃ count t rest', Walk expandVisit s (rest.head?.map (·.id)) visits count t ∧ t.rows = above ++ rest' ∧
      ∀ r ∈ rest', r.state.snapshot = none := by
  -- each visit moves one line to those above; the texts to come get fewer by that line's, whatever comes back below it
  induction visits generalizing s above rest with
  | zero =>
    cases rest with
    | nil => exact ⟨0, s, [], .past, hr, by simp⟩
    | cons r below => simp [Row.texts] at hv
  | succ visits ih =>
    cases rest with
    | nil => cases hv
    | cons r below =>
      obtain ⟨answer, t, opened, rest, hvisit, hw, hproper, hrows, hid, hnone, htexts⟩ := expandVisit_row h hp hr
      have hlen : (textsOfRows rest).length = visits := by
        simp only [textsOfRows_cons, Row.texts, List.cons_append, List.length_cons] at hv
        rw [htexts]
        exact Nat.succ.inj hv
      obtain ⟨count, u, rest', hwalk, hrest, hflat⟩ := ih hw hproper hrows hlen
      have hnext : t.document.next? r.id = rest.head?.map (·.id) := by
        rw [← hid]
        exact next?_of_rows hw.sheet (by rw [hrows, List.append_assoc]; rfl)
      rw [← hnext] at hwalk
      refine ⟨answer + count, u, opened :: rest', .visit hvisit hwalk, ?_, List.forall_mem_cons.2 ⟨hnone, hflat⟩⟩
      rw [hrest, List.append_assoc]
      rfl

theorem lines_of_flat (hflat : ∀ r ∈ s.rows, r.state.snapshot = none) : s.document.lines = s.expanded := by
  have hone : ∀ id ∈ s.document.order, (s.row id).texts = [s.document.textOf id] := by
    intro id hid
    have hs := hflat (s.row id) (List.mem_map_of_mem hid)
    simp only [Row.texts, Row.hidden, hs]
    rfl
  rw [Document.lines, Sheet.expanded, textsOfRows, Sheet.rows, List.flatMap_map, List.map_eq_flatMap]
  exact (List.flatMap_congr hone).symm

/-- **Expanding all lines is a walk down to the last one**, which visits each line of the expanded text once and leaves none
hidden. -/
theorem expandAll_walk (h : s.WellFormed) (hp : s.Proper) :
    ∃ count t, Walk expandVisit s s.document.first? s.expandedCount count t ∧
      s.expandAll = (.ok count, t.log [.allExpanded count]) ∧ ∀ r ∈ t.rows, r.state.snapshot = none := by
  obtain ⟨count, t, rest, hwalk, hrest, hflat⟩ :=
    exists_walk_expand h hp (List.nil_append _).symm (expandedCount_eq s).symm
  have hfirst : s.document.first? = s.rows.head?.map (·.id) := by
    rw [Document.first?, ← Sheet.map_id_rows, List.head?_map]
  rw [← hfirst] at hwalk
  refine ⟨count, t, hwalk, ?_, ?_⟩
  · rw [expandAll, hwalk.expandFrom (Nat.le_refl _)]
  · rwa [hrest]

/-- no line hides anything once all are expanded -/
theorem expandAll_flat (h : s.WellFormed) (hp : s.Proper) : ∀ r ∈ s.expandAll.2.rows, r.state.snapshot = none := by
  obtain ⟨count, t, -, hall, hflat⟩ := expandAll_walk h hp
  rwa [hall, log_toSheet]

/-- **Expanding all lines succeeds, and brings back the expanded text.** -/
theorem expandAll_spec (h : s.WellFormed) (hp : s.Proper) :
    (∃ count, s.expandAll.1 = .ok count) ∧ s.expandAll.2.document.lines = s.expanded := by
  obtain ⟨count, t, -, hall, -⟩ := expandAll_walk h hp
  refine ⟨⟨count, by rw [hall]⟩, ?_⟩
  rw [lines_of_flat (expandAll_flat h hp)]
  exact (expandAll_leads s).opening.expanded h hp

/-- operations that edit nothing, one after the other -/
theorem run_neutral (h : s.WellFormed) {ops : List Op} (hops : ∀ op ∈ ops, op.isNeutral = true) :
    Leads (·.isNeutral) s (s.run ops) := by
  induction ops generalizing s with
  | nil => exact Leads.refl
  | cons op ops ih =>
    simp only [List.forall_mem_cons] at hops
    have hop := neutral_leads h hops.1
    rw [run_cons]
    exact hop.trans (ih (hop.wellFormed h) hops.2)

theorem run_expandAll (h : s.WellFormed) (hp : s.Proper) {ops : List Op} (hops : ∀ op ∈ ops, op.isNeutral = true) :
    (∃ count, ((s.run ops).perform .expandAll).1 = .ok (.count count)) ∧
      ((s.run ops).step .expandAll).document.lines = s.expanded := by
  have hrun := run_neutral h hops
  obtain ⟨⟨count, hcount⟩, hlines⟩ := expandAll_spec (hrun.wellFormed h) (hrun.proper h hp)
  refine ⟨⟨count, ?_⟩, hlines.trans (hrun.expanded h hp)⟩
  simp only [perform, reply, hcount]
  rfl

theorem start_expanded (grammar : Grammar) (document : Document) :
    (start grammar document).expanded = document.lines := by
  rw [Sheet.expanded, start_rows, textsOfRows, List.flatMap_map, Document.lines, List.map_eq_flatMap]
  rfl

end Session

end Linewise
