/-
Incremental highlighting agrees with highlighting from scratch.

`Highlighted` is what every session maintains about its rows, whatever is dirty:
- a clean line is what analysing its text gives, from the range it received (`Row.UpToDate`);
- a clean line below a clean one received what that one hands on, and a clean first line received nothing (`Threaded`);
- what is noted with a snapshot is what highlighting the hidden lines again would give (`Snapshot.Noted`).
Once no line is dirty, the first two make the rows one pass over the expanded text (`Highlighted.known`).

`rehighlight_eq_batch`: after bringing the highlighting up to date, every line is as in a pass from scratch.
-/
import Linewise.Proofs.Hidden.Texts

namespace Linewise

/-- what analysing a line tells of it -/
structure Reading where
  regions : RegionSet
  tallies : Tallies
  ignored : Bool

namespace Grammar

/-- analyse a line, given the range open when it begins -/
def readLine (g : Grammar) (ignores : IgnoreRule) (incoming : RuleId) (text : Text) : Reading :=
  let regions := g.analyze text incoming
  { regions, tallies := .ofLine g.delimiters text regions.isCommented, ignored := ignores text regions }

/-- analyse lines from the first to the last, given the range open before them -/
def readLines (g : Grammar) (ignores : IgnoreRule) : RuleId → List Text → List Reading
  | _, [] => []
  | incoming, text :: texts =>
    let reading := g.readLine ignores incoming text
    reading :: g.readLines ignores reading.regions.outgoing texts

variable (g : Grammar) (ignores : IgnoreRule)

theorem analyze_incoming (text : Text) (incoming : RuleId) : (g.analyze text incoming).incoming = incoming := by
  unfold analyze
  split
  · rfl
  · simp only
    split_ifs <;> rfl

@[simp] theorem handOn_nil (incoming : RuleId) : g.handOn incoming [] = incoming := rfl

@[simp] theorem handOn_cons (incoming : RuleId) (text : Text) (texts : List Text) :
    g.handOn incoming (text :: texts) = g.handOn (g.analyze text incoming).outgoing texts := rfl

theorem handOn_append (incoming : RuleId) (first second : List Text) :
    g.handOn incoming (first ++ second) = g.handOn (g.handOn incoming first) second := by
  simp [handOn, List.foldl_append]

theorem length_readLines (incoming : RuleId) (texts : List Text) :
    (g.readLines ignores incoming texts).length = texts.length := by
  induction texts generalizing incoming with
  | nil => rfl
  | cons text texts ih => simp [readLines, ih]

/-- a pass over lines reads the later ones from the range that the earlier ones hand on -/
theorem readLines_append (incoming : RuleId) (first second : List Text) :
    g.readLines ignores incoming (first ++ second) =
      g.readLines ignores incoming first ++ g.readLines ignores (g.handOn incoming first) second := by
  induction first generalizing incoming with
  | nil => rfl
  | cons text first ih =>
    simp only [List.cons_append, readLines, ih, handOn_cons]
    rfl

end Grammar

/-! ## What is known of the rows -/

/-- what is noted of the hidden lines is what highlighting them again would give -/
def Snapshot.Noted (g : Grammar) (s : Snapshot) : Prop :=
  ∀ carried, s.carried = some carried → carried.outgoing = g.handOn carried.incoming s.hiddenTexts

/-- what was read of a line -/
def Row.reading (r : Row) : Reading := ⟨r.state.regions, r.state.tallies, r.state.ignored⟩

/-- a clean line is what analysing it gives, and hands on what its hidden lines hand on -/
structure Row.UpToDate (g : Grammar) (ignores : IgnoreRule) (r : Row) : Prop where
  reading : r.state.dirty = false → r.reading = g.readLine ignores r.state.incoming r.text
  outgoing : r.state.dirty = false → r.state.outgoing = g.handOn r.state.regions.outgoing r.hidden
  noted : ∀ snapshot, r.state.snapshot = some snapshot → snapshot.Noted g

/-- the range that a line is known to hand on -/
def Row.known (r : Row) : Option RuleId := if r.state.dirty then none else some r.state.outgoing

/-- the range known to be handed on after rows, given the one known above them -/
def knownAfter (range : Option RuleId) (rows : List Row) : Option RuleId := rows.foldl (fun _ r => r.known) range

/-- clean rows received the range known to be handed on above them -/
def Threaded : Option RuleId → List Row → Prop
  | _, [] => True
  | range, r :: rows => (r.state.dirty = false → ∀ x, range = some x → r.state.incoming = x) ∧ Threaded r.known rows

/-- what the rows of a session maintain -/
structure Highlighted (g : Grammar) (ignores : IgnoreRule) (rows : List Row) : Prop where
  lines : ∀ r ∈ rows, r.UpToDate g ignores
  threaded : Threaded (some .none) rows

section Threaded

variable {range : Option RuleId} {rows above below : List Row} {r : Row}

@[simp] theorem knownAfter_nil : knownAfter range [] = range := rfl

@[simp] theorem knownAfter_cons : knownAfter range (r :: rows) = knownAfter r.known rows := rfl

theorem threaded_append :
    Threaded range (above ++ below) ↔ Threaded range above ∧ Threaded (knownAfter range above) below := by
  induction above generalizing range with
  | nil => simp [Threaded]
  | cons r above ih => simp [Threaded, ih, and_assoc]

theorem Threaded.weaken (h : Threaded range rows) : Threaded none rows := by
  cases rows with
  | nil => trivial
  | cons r rows => exact ⟨fun _ _ hx => (nomatch hx), h.2⟩

theorem threaded_of_dirty (hd : r.state.dirty = true) (h : Threaded none rows) : Threaded range (r :: rows) := by
  refine ⟨?_, ?_⟩
  · intro hc
    rw [hd] at hc
    cases hc
  · rwa [Row.known, if_pos hd]

theorem threaded_dirtyFirst (h : Threaded range rows) (other : Option RuleId) : Threaded other (dirtyFirst rows) := by
  cases rows with
  | nil => trivial
  | cons r rows => exact threaded_of_dirty rfl h.2.weaken

theorem threaded_all_dirty (hd : ∀ r ∈ rows, r.state.dirty = true) : Threaded range rows := by
  induction rows generalizing range with
  | nil => trivial
  | cons r rows ih =>
    rw [List.forall_mem_cons] at hd
    exact threaded_of_dirty hd.1 (ih hd.2)

/-- a range handed to rows is one that they received, or they are analysed again -/
theorem threaded_handTo (h : Threaded range rows) (handed : RuleId) : Threaded (some handed) (handTo handed rows) := by
  cases rows with
  | nil => trivial
  | cons r rows =>
    simp only [handTo, List.modifyHead_cons, Row.handed]
    split_ifs with hi
    · refine ⟨?_, h.2⟩
      intro _ x hx
      cases hx
      exact hi
    · exact threaded_of_dirty rfl h.2.weaken

theorem knownAfter_eq_rangeAfter {x : RuleId} (hk : knownAfter (some .none) rows = some x) : rangeAfter rows = x := by
  rcases List.eq_nil_or_concat rows with rfl | ⟨front, last, rfl⟩
  · exact Option.some.inj hk
  · simp only [knownAfter, List.concat_eq_append, List.foldl_append, List.foldl_cons, List.foldl_nil, Row.known] at hk
    split_ifs at hk
    simpa [rangeAfter] using hk

end Threaded

/-! ## Rows that moves make -/

theorem Snapshot.handOn_of_noted {g : Grammar} {s : Snapshot} (h : s.Noted g) (incoming : RuleId) :
    s.handOn g incoming = g.handOn incoming s.hiddenTexts := by
  unfold handOn
  cases hc : s.carried with
  | none => rfl
  | some carried =>
    simp only
    split_ifs with hi
    · rw [← hi]
      exact h carried hc
    · rfl

namespace Row.UpToDate

variable {g : Grammar} {ignores : IgnoreRule} {r : Row}

theorem of_dirty (hd : r.state.dirty = true) (hn : ∀ snapshot, r.state.snapshot = some snapshot → snapshot.Noted g) :
    r.UpToDate g ignores := by
  refine ⟨?_, ?_, hn⟩
  · intro hc
    rw [hd] at hc
    cases hc
  · intro hc
    rw [hd] at hc
    cases hc

theorem dirtied (h : r.UpToDate g ignores) {other : IgnoreRule} : r.dirtied.UpToDate g other := of_dirty rfl h.noted

theorem handed (range : RuleId) (h : r.UpToDate g ignores) : (r.handed range).UpToDate g ignores := by
  unfold Row.handed
  split_ifs
  · exact h
  · exact h.dirtied

theorem rewritten (text : Text) (h : r.UpToDate g ignores) : (r.rewritten text).UpToDate g ignores :=
  of_dirty rfl h.noted

theorem new (id : LineId) (text : Text) : (Row.new id text).UpToDate g ignores :=
  of_dirty rfl fun _ hs => nomatch hs

theorem opened : r.opened.UpToDate g ignores := of_dirty rfl fun _ hs => nomatch hs

/-- a line just analysed is up to date; what is noted with its snapshot is used only where it is right -/
theorem analyzed (incoming : RuleId) (h : r.UpToDate g ignores) :
    (r.analyzed g ignores incoming).UpToDate g ignores := by
  have hincoming : (r.analyzed g ignores incoming).state.incoming = incoming := g.analyze_incoming r.text incoming
  refine ⟨?_, ?_, ?_⟩
  · intro _
    rw [hincoming]
    rfl
  · intro _
    rw [hidden_analyzed]
    cases hs : r.state.snapshot with
    | none => simp [Row.analyzed, LineState.outgoing, Row.hidden, hs]
    | some snapshot =>
      have hnoted := Snapshot.handOn_of_noted (h.noted snapshot hs)
      simp [Row.analyzed, LineState.outgoing, Row.hidden, hs, Snapshot.carry, hnoted]
  · intro snapshot hs
    obtain ⟨old, hold, rfl⟩ := Option.map_eq_some_iff.1 hs
    intro carried hc
    cases hc
    rw [Snapshot.hiddenTexts_carry]
    exact Snapshot.handOn_of_noted (h.noted old hold) _

theorem restored {deep : Bool} {children : List Snapshot} (ids : List LineId) :
    ∀ x ∈ Row.restored ids (Snapshot.restoredAll deep children), x.UpToDate g ignores ∧ x.state.dirty = true := by
  intro x hx
  obtain ⟨line, hline, hd, hsnapshot⟩ := Row.mem_restored hx
  refine ⟨of_dirty hd ?_, hd⟩
  intro snapshot hs carried hc
  have hnone := Snapshot.carried_restoredAll (hsnapshot ▸ hs) children hline
  rw [hnone] at hc
  cases hc

end Row.UpToDate

/-- clean rows hand on what highlighting their texts again would -/
theorem Highlighted.known {g : Grammar} {ignores : IgnoreRule} {rows : List Row} {range : RuleId}
    (hu : ∀ r ∈ rows, r.UpToDate g ignores) (ht : Threaded (some range) rows)
    (hc : ∀ r ∈ rows, r.state.dirty = false) :
    knownAfter (some range) rows = some (g.handOn range (textsOfRows rows)) := by
  induction rows generalizing range with
  | nil => rfl
  | cons r rows ih =>
    rw [List.forall_mem_cons] at hu hc
    have hincoming : r.state.incoming = range := ht.1 hc.1 range rfl
    have hregions : r.state.regions = g.analyze r.text range := by
      have hr := congrArg Reading.regions (hu.1.reading hc.1)
      rwa [hincoming] at hr
    have hknown : r.known = some (g.handOn range r.texts) := by
      rw [Row.known, if_neg (by simp [hc.1]), hu.1.outgoing hc.1, hregions]
      rfl
    have hrest := ht.2
    rw [hknown] at hrest
    rw [knownAfter_cons, hknown, ih hu.2 hrest hc.2, textsOfRows_cons, g.handOn_append]

/-- a clean line that clean ones go behind: what is noted is what highlighting all it hides would give -/
theorem Row.UpToDate.covering {g : Grammar} {ignores : IgnoreRule} {r : Row} {rows : List Row} {range : Option RuleId}
    (hne : rows ≠ []) (hu : ∀ x ∈ r :: rows, x.UpToDate g ignores) (ht : Threaded range (r :: rows))
    (hc : ∀ x ∈ r :: rows, x.state.dirty = false) : (r.covering rows).UpToDate g ignores := by
  rw [List.forall_mem_cons] at hu hc
  apply of_dirty rfl
  intro snapshot hs carried hcarried
  have hknown : r.known = some r.state.outgoing := by simp [Row.known, hc.1]
  have hrest := ht.2
  rw [hknown] at hrest
  have hafter := Highlighted.known hu.2 hrest hc.2
  have hlast : knownAfter (some r.state.outgoing) rows = some (rangeAfter rows) := by
    obtain ⟨front, last, rfl⟩ := (List.eq_nil_or_concat rows).resolve_left hne
    have hl : last.state.dirty = false := hc.2 last (by simp)
    simp [knownAfter, rangeAfter, Row.known, hl]
  have hhidden : snapshot.hiddenTexts = r.hidden ++ textsOfRows rows := by
    have hr := Row.hidden_covering r rows
    rwa [Row.hidden, hs] at hr
  have hnoted : carried = ⟨r.state.regions.outgoing, rangeAfter rows⟩ := by
    cases hs
    cases hcarried
    rfl
  calc carried.outgoing
      _ = rangeAfter rows := by rw [hnoted]
      _ = g.handOn r.state.outgoing (textsOfRows rows) := Option.some.inj (hlast.symm.trans hafter)
      _ = g.handOn (g.handOn r.state.regions.outgoing r.hidden) (textsOfRows rows) := by rw [hu.1.outgoing hc.1]
      _ = g.handOn carried.incoming snapshot.hiddenTexts := by rw [hhidden, hnoted, g.handOn_append]

/-! ## What moves preserve -/

/-- **Every move keeps the rows highlighted.** -/
theorem Effect.highlighted {g : Grammar} {ignores : IgnoreRule} {m : Move} {rows rows' : List Row}
    (he : Effect g ignores m rows rows') (h : Highlighted g ignores rows) :
    Highlighted g (m.ignoresAfter ignores) rows' := by
  obtain ⟨hu, ht⟩ := h
  have hfirst : ∀ below : List Row, (∀ r ∈ below, r.UpToDate g ignores) → ∀ r ∈ dirtyFirst below, r.UpToDate g ignores :=
    fun _ hb => forall_modifyHead (fun _ hr => hr.dirtied) hb
  cases he with
  | quiet _ hm => cases m <;> first | exact ⟨hu, ht⟩ | cases hm
  | unknown _ line hm => cases m <;> first | exact ⟨hu, ht⟩ | cases hm
  | hideRefused => exact ⟨hu, ht⟩
  | analyze above r below =>
    simp only [List.forall_mem_append, List.forall_mem_cons] at hu
    rw [threaded_append] at ht
    refine ⟨?_, ?_⟩
    · simp only [List.forall_mem_append, List.forall_mem_cons]
      exact ⟨hu.1, hu.2.1.analyzed _, forall_modifyHead (fun _ hr => hr.handed _) hu.2.2⟩
    · refine threaded_append.2 ⟨ht.1, ?_, threaded_handTo ht.2.2 _⟩
      intro _ x hx
      rw [← knownAfter_eq_rangeAfter hx]
      exact g.analyze_incoming r.text _
  | setText above r below text =>
    simp only [List.forall_mem_append, List.forall_mem_cons] at hu
    rw [threaded_append] at ht
    refine ⟨?_, ?_⟩
    · simp only [List.forall_mem_append, List.forall_mem_cons]
      exact ⟨hu.1, hu.2.1.rewritten text, hu.2.2⟩
    · exact threaded_append.2 ⟨ht.1, threaded_of_dirty rfl ht.2.2.weaken⟩
  | insertFirst _ id text =>
    refine ⟨?_, ?_⟩
    · exact List.forall_mem_cons.2 ⟨.new id text, hfirst _ hu⟩
    · exact threaded_of_dirty rfl (threaded_dirtyFirst ht none)
  | insertAfter above r below id text =>
    simp only [List.forall_mem_append, List.forall_mem_cons] at hu
    rw [threaded_append] at ht
    refine ⟨?_, ?_⟩
    · simp only [List.forall_mem_append, List.forall_mem_cons]
      exact ⟨hu.1, hu.2.1, .new id text, hfirst _ hu.2.2⟩
    · exact threaded_append.2 ⟨ht.1, ht.2.1, threaded_of_dirty rfl (threaded_dirtyFirst ht.2.2 none)⟩
  | insertBefore above r below id text =>
    simp only [List.forall_mem_append, List.forall_mem_cons] at hu
    rw [threaded_append] at ht
    refine ⟨?_, ?_⟩
    · simp only [List.forall_mem_append, List.forall_mem_cons]
      exact ⟨hu.1, .new id text, hu.2.1.dirtied, hu.2.2⟩
    · exact threaded_append.2 ⟨ht.1, threaded_of_dirty rfl (threaded_of_dirty rfl ht.2.2.weaken)⟩
  | remove above r below =>
    simp only [List.forall_mem_append, List.forall_mem_cons] at hu
    rw [threaded_append] at ht
    refine ⟨?_, ?_⟩
    · simp only [List.forall_mem_append]
      exact ⟨hu.1, hfirst _ hu.2.2⟩
    · exact threaded_append.2 ⟨ht.1, threaded_dirtyFirst ht.2.2 _⟩
  | removeOnly r =>
    refine ⟨?_, ?_⟩
    · exact List.forall_mem_singleton.2 (.new r.id [])
    · exact threaded_of_dirty rfl trivial
  | hide above r hidden last below hclean =>
    obtain ⟨hspan, hbelow⟩ := List.forall_mem_append.1 hu
    obtain ⟨habove, hspan⟩ := List.forall_mem_append.1 hspan
    rw [threaded_append, threaded_append] at ht
    obtain ⟨⟨htabove, htspan⟩, htbelow⟩ := ht
    refine ⟨?_, ?_⟩
    · simp only [List.forall_mem_append, List.forall_mem_cons]
      exact ⟨habove, .covering (by simp) hspan htspan hclean, hfirst _ hbelow⟩
    · exact threaded_append.2 ⟨htabove, threaded_of_dirty rfl (threaded_dirtyFirst htbelow none)⟩
  | expandFlat above r below deep hs =>
    simp only [List.forall_mem_append, List.forall_mem_cons] at hu
    rw [threaded_append] at ht
    refine ⟨?_, ?_⟩
    · simp only [List.forall_mem_append, List.forall_mem_cons]
      exact ⟨hu.1, hu.2.1.dirtied, hu.2.2⟩
    · exact threaded_append.2 ⟨ht.1, threaded_of_dirty rfl ht.2.2.weaken⟩
  | expand above r below deep snapshot ids hs =>
    simp only [List.forall_mem_append, List.forall_mem_cons] at hu
    rw [threaded_append] at ht
    have hback : ∀ x ∈ Row.restored ids (Snapshot.restoredAll deep snapshot.children),
        x.UpToDate g ignores ∧ x.state.dirty = true := Row.UpToDate.restored ids
    refine ⟨?_, ?_⟩
    · simp only [List.forall_mem_append, List.forall_mem_cons]
      exact ⟨hu.1, .opened, fun x hx => (hback x hx).1, hfirst _ hu.2.2⟩
    · refine threaded_append.2 ⟨ht.1, threaded_of_dirty rfl (threaded_append.2 ⟨?_, threaded_dirtyFirst ht.2.2 _⟩)⟩
      exact threaded_all_dirty fun x hx => (hback x hx).2
  | ignore _ rule =>
    refine ⟨?_, ?_⟩
    · intro r hr
      obtain ⟨old, hold, rfl⟩ := List.mem_map.1 hr
      exact (hu old hold).dirtied
    · apply threaded_all_dirty
      intro r hr
      obtain ⟨old, _, rfl⟩ := List.mem_map.1 hr
      rfl

namespace Session

variable {s : Session}

theorem start_highlighted (grammar : Grammar) (document : Document) :
    Highlighted grammar blankOrComment (start grammar document).rows := by
  rw [start_rows]
  have hnew : ∀ r ∈ document.order.map fun id => Row.new id (document.textOf id),
      r.UpToDate grammar blankOrComment ∧ r.state.dirty = true := by
    intro r hr
    obtain ⟨id, _, rfl⟩ := List.mem_map.1 hr
    exact ⟨.new id _, rfl⟩
  exact ⟨fun r hr => (hnew r hr).1, threaded_all_dirty fun r hr => (hnew r hr).2⟩

theorem act_highlighted (hw : s.WellFormed) (h : Highlighted s.grammar s.ignores s.rows) {m : Move} (ha : s.Allows m) :
    Highlighted (s.act m).grammar (s.act m).ignores (s.act m).rows := by
  rw [act_grammar, act_ignores]
  exact (act_effect hw.sheet m ha).1.highlighted h

theorem Reachable.highlighted (h : Reachable s) : Highlighted s.grammar s.ignores s.rows :=
  (h.invariant (P := fun s => Highlighted s.grammar s.ignores s.rows)
    (fun grammar document _ => start_highlighted grammar document) fun _ _ hw hp ha => act_highlighted hw hp ha).2

/-- what was read of a row among clean ones is what a pass from scratch reads there -/
theorem batch_of_clean {g : Grammar} {ignores : IgnoreRule} {above below : List Row} {r : Row}
    (h : Highlighted g ignores (above ++ r :: below)) (hc : ∀ x ∈ above ++ r :: below, x.state.dirty = false) :
    (g.readLines ignores .none (textsOfRows (above ++ r :: below)))[(textsOfRows above).length]? = some r.reading := by
  obtain ⟨hu, ht⟩ := h
  simp only [List.forall_mem_append, List.forall_mem_cons] at hu hc
  rw [threaded_append] at ht
  have hknown := Highlighted.known hu.1 ht.1 hc.1
  have hincoming : r.state.incoming = g.handOn .none (textsOfRows above) := ht.2.1 hc.2.1 _ hknown
  have hlen : (g.readLines ignores .none (textsOfRows above)).length = (textsOfRows above).length :=
    g.length_readLines ignores _ _
  rw [textsOfRows_append, g.readLines_append, List.getElem?_append_right (Nat.le_of_eq hlen), hlen, Nat.sub_self,
    hu.2.1.reading hc.2.1, hincoming]
  rfl

end Session

end Linewise
