/-
Rows that reading again does not change.

A row is settled if analysing it from the range that it received gives the row back, clean. Once all rows are clean they are
settled (`Reachable.settled`), and they stay so while lines are only read and hidden: a line that others go behind notes what
they hand on, so that the line below receives what it received before (`Settled.covering`). Marking such rows dirty costs
time but changes nothing, and what a run of readings and collapses makes of them is an edit of a list: reading is the
identity up to the dirty marks (`Leads.settled`), hiding is `Row.covering`.
-/
import Linewise.Proofs.Highlighting.Batch

namespace Linewise

/-! ## What clean lines note of those they hide -/

theorem Snapshot.carry_of_knows {g : Grammar} {s : Snapshot} {incoming : RuleId} (h : s.knows incoming = true) :
    s.carry g incoming = s := by
  obtain ⟨text, collapsed, tallies, children, carried⟩ := s
  cases carried with
  | none => cases h
  | some noted =>
    obtain ⟨before, after⟩ := noted
    have hin : before = incoming := by simpa [knows] using h
    simp [carry, handOn, hin]

/-- a clean line notes what is open after the lines it hides, given what it leaves open itself -/
def Row.Carries (r : Row) : Prop :=
  r.state.dirty = false → ∀ snapshot, r.state.snapshot = some snapshot → snapshot.knows r.state.regions.outgoing = true

namespace Row.Carries

variable {r : Row}

theorem of_dirty (h : r.state.dirty = true) : r.Carries := by
  intro hc
  rw [h] at hc
  cases hc

theorem of_no_snapshot (h : r.state.snapshot = none) : r.Carries := by
  intro _ snapshot hs
  rw [h] at hs
  cases hs

theorem handed (range : RuleId) (h : r.Carries) : (r.handed range).Carries := by
  unfold Row.handed
  split_ifs
  · exact h
  · exact of_dirty rfl

theorem analyzed (g : Grammar) (ignores : IgnoreRule) (incoming : RuleId) : (r.analyzed g ignores incoming).Carries := by
  intro _ snapshot hs
  obtain ⟨old, _, rfl⟩ := Option.map_eq_some_iff.1 hs
  simp [Snapshot.knows, Snapshot.carry, Row.analyzed]

end Row.Carries

/-- **Every move leaves clean lines noting what those they hide hand on**: a line is cleaned only by analysing it. -/
theorem Effect.carries {g : Grammar} {ignores : IgnoreRule} {m : Move} {rows rows' : List Row}
    (he : Effect g ignores m rows rows') (h : ∀ r ∈ rows, r.Carries) : ∀ r ∈ rows', r.Carries := by
  have hfirst : ∀ below : List Row, (∀ r ∈ below, r.Carries) → ∀ r ∈ dirtyFirst below, r.Carries :=
    fun _ hb => forall_modifyHead (fun _ _ => .of_dirty rfl) hb
  cases he with
  | quiet | unknown | hideRefused => exact h
  | analyze above r below =>
    rw [List.forall_mem_append, List.forall_mem_cons] at h ⊢
    exact ⟨h.1, .analyzed g ignores _, forall_modifyHead (fun _ hr => hr.handed _) h.2.2⟩
  | setText above r below text =>
    rw [List.forall_mem_append, List.forall_mem_cons] at h ⊢
    exact ⟨h.1, .of_dirty rfl, h.2.2⟩
  | insertFirst _ id text =>
    rw [List.forall_mem_cons]
    exact ⟨.of_dirty rfl, hfirst _ h⟩
  | insertAfter above r below id text =>
    rw [List.forall_mem_append, List.forall_mem_cons] at h
    rw [List.forall_mem_append, List.forall_mem_cons, List.forall_mem_cons]
    exact ⟨h.1, h.2.1, .of_dirty rfl, hfirst _ h.2.2⟩
  | insertBefore above r below id text =>
    rw [List.forall_mem_append, List.forall_mem_cons] at h
    rw [List.forall_mem_append, List.forall_mem_cons, List.forall_mem_cons]
    exact ⟨h.1, .of_dirty rfl, .of_dirty rfl, h.2.2⟩
  | remove above r below =>
    rw [List.forall_mem_append, List.forall_mem_cons] at h
    rw [List.forall_mem_append]
    exact ⟨h.1, hfirst _ h.2.2⟩
  | removeOnly r =>
    rw [List.forall_mem_singleton]
    exact .of_dirty rfl
  | hide above r hidden last below =>
    obtain ⟨hkept, hbelow⟩ := List.forall_mem_append.1 h
    rw [List.forall_mem_append, List.forall_mem_cons]
    exact ⟨(List.forall_mem_append.1 hkept).1, .of_dirty rfl, hfirst _ hbelow⟩
  | expandFlat above r below deep hs =>
    rw [List.forall_mem_append, List.forall_mem_cons] at h ⊢
    exact ⟨h.1, .of_dirty rfl, h.2.2⟩
  | expand above r below deep snapshot ids hs =>
    rw [List.forall_mem_append, List.forall_mem_cons] at h
    rw [List.forall_mem_append, List.forall_mem_cons, List.forall_mem_append]
    refine ⟨h.1, .of_dirty rfl, ?_, hfirst _ h.2.2⟩
    intro x hx
    obtain ⟨line, _, hd, _⟩ := Row.mem_restored hx
    exact .of_dirty hd
  | ignore _ rule =>
    intro r hr
    obtain ⟨old, _, rfl⟩ := List.mem_map.1 hr
    exact .of_dirty rfl

theorem Session.Reachable.carries {s : Session} (h : Reachable s) : ∀ r ∈ s.rows, r.Carries := by
  refine (h.invariant (P := fun s => ∀ r ∈ s.rows, r.Carries) ?_ ?_).2
  · intro grammar document _ r hr
    rw [start_rows] at hr
    obtain ⟨id, _, rfl⟩ := List.mem_map.1 hr
    exact .of_dirty rfl
  · intro s m hw hc ha
    exact (act_effect hw.sheet m ha).1.carries hc

/-! ## Settled rows -/

/-- the line, not to be analysed again -/
def Row.cleaned (r : Row) : Row := { r with state := { r.state with dirty := false } }

/-- the range handed on by the last of the rows, if the one handed to them is `range` -/
def rangePast (range : RuleId) (rows : List Row) : RuleId := (rows.getLast?.map (·.state.outgoing)).getD range

/-- analysing each of the rows from the range handed to it gives it back -/
def Settled (g : Grammar) (ignores : IgnoreRule) : RuleId → List Row → Prop
  | _, [] => True
  | range, r :: rows => r.analyzed g ignores range = r.cleaned ∧ Settled g ignores r.state.outgoing rows

namespace Row

@[simp] theorem cleaned_cleaned (r : Row) : r.cleaned.cleaned = r.cleaned := rfl

theorem cleaned_of_clean {r : Row} (h : r.state.dirty = false) : r.cleaned = r := by
  obtain ⟨id, text, regions, tallies, ignored, dirty, snapshot⟩ := r
  cases h
  rfl

theorem analyzed_cleaned (g : Grammar) (ignores : IgnoreRule) (incoming : RuleId) (r : Row) :
    r.cleaned.analyzed g ignores incoming = r.analyzed g ignores incoming := rfl

/-- analysing a row gives it back if it was read from that range and notes what the lines it hides hand on -/
theorem settled_iff {g : Grammar} {ignores : IgnoreRule} {range : RuleId} {r : Row} :
    r.analyzed g ignores range = r.cleaned ↔ r.reading = g.readLine ignores range r.text ∧
      (r.state.snapshot.map fun snapshot => snapshot.carry g r.state.regions.outgoing) = r.state.snapshot := by
  obtain ⟨id, text, regions, tallies, ignored, dirty, snapshot⟩ := r
  simp only [analyzed, cleaned, reading, Grammar.readLine, Row.mk.injEq, LineState.mk.injEq, Reading.mk.injEq, true_and]
  constructor
  · rintro ⟨rfl, htallies, hignored, hsnapshot⟩
    exact ⟨⟨rfl, htallies.symm, hignored.symm⟩, hsnapshot⟩
  · rintro ⟨⟨rfl, rfl, rfl⟩, hsnapshot⟩
    exact ⟨rfl, rfl, rfl, hsnapshot⟩

/-- a settled row received the range it is analysed from -/
theorem incoming_of_settled {g : Grammar} {ignores : IgnoreRule} {range : RuleId} {r : Row}
    (h : r.analyzed g ignores range = r.cleaned) : r.state.incoming = range := by
  have hincoming : (r.analyzed g ignores range).state.incoming = range := g.analyze_incoming r.text range
  rw [h] at hincoming
  exact hincoming

end Row

theorem map_cleaned_dirtyFirst (rows : List Row) : (dirtyFirst rows).map Row.cleaned = rows.map Row.cleaned := by
  cases rows <;> rfl

theorem map_cleaned_of_clean {rows : List Row} (h : ∀ r ∈ rows, r.state.dirty = false) : rows.map Row.cleaned = rows :=
  (List.map_congr_left fun r hr => Row.cleaned_of_clean (h r hr)).trans (List.map_id rows)

theorem rangePast_none (rows : List Row) : rangePast .none rows = rangeAfter rows := rfl

theorem rangePast_cons (range : RuleId) (r : Row) (rows : List Row) :
    rangePast range (r :: rows) = rangePast r.state.outgoing rows := by
  cases rows with
  | nil => rfl
  | cons x rows =>
    rw [rangePast, rangePast, List.getLast?_cons_cons, List.getLast?_cons]
    rfl

/-- where there are rows, the range handed to them does not matter to what the last one hands on -/
theorem rangePast_of_ne_nil {rows : List Row} (h : rows ≠ []) (range : RuleId) : rangePast range rows = rangeAfter rows := by
  cases rows with
  | nil => exact absurd rfl h
  | cons r rows => rw [← rangePast_none, rangePast_cons, rangePast_cons]

namespace Settled

variable {g : Grammar} {ignores : IgnoreRule} {range : RuleId} {rows rows' above below : List Row} {r : Row}

theorem append_iff :
    Settled g ignores range (above ++ below) ↔
      Settled g ignores range above ∧ Settled g ignores (rangePast range above) below := by
  induction above generalizing range with
  | nil => exact ⟨fun h => ⟨trivial, h⟩, fun h => h.2⟩
  | cons r above ih =>
    rw [List.cons_append, Settled, Settled, ih, rangePast_cons, and_assoc]

/-- dirty marks do not matter -/
theorem congr (h : rows.map Row.cleaned = rows'.map Row.cleaned) (hs : Settled g ignores range rows) :
    Settled g ignores range rows' := by
  induction rows generalizing range rows' with
  | nil =>
    rw [List.map_eq_nil_iff.1 h.symm]
    trivial
  | cons r rows ih =>
    obtain ⟨r', rest, rfl, hr, hrest⟩ := List.map_eq_cons_iff.1 h.symm
    have hsame : r'.analyzed g ignores range = r.analyzed g ignores range := by
      rw [← Row.analyzed_cleaned, hr, Row.analyzed_cleaned]
    have hout : r'.state.outgoing = r.state.outgoing := congrArg (·.state.outgoing) hr
    refine ⟨?_, ?_⟩
    · rw [hsame, hs.1, hr]
    · rw [hout]
      exact ih hrest.symm hs.2

/-- clean rows that are up to date are settled -/
theorem of_clean (h : Threaded (some range) rows) (hu : ∀ r ∈ rows, r.UpToDate g ignores) (hn : ∀ r ∈ rows, r.Carries)
    (hc : ∀ r ∈ rows, r.state.dirty = false) : Settled g ignores range rows := by
  induction rows generalizing range with
  | nil => trivial
  | cons r rows ih =>
    rw [List.forall_mem_cons] at hu hn hc
    have hknown : r.known = some r.state.outgoing := by rw [Row.known, if_neg (by simp [hc.1])]
    refine ⟨?_, ih (hknown ▸ h.2) hu.2 hn.2 hc.2⟩
    have hincoming : r.state.incoming = range := h.1 hc.1 range rfl
    refine Row.settled_iff.2 ⟨hincoming ▸ hu.1.reading hc.1, ?_⟩
    cases hs : r.state.snapshot with
    | none => rfl
    | some snapshot => rw [Option.map_some, Snapshot.carry_of_knows (hn.1 hc.1 snapshot hs)]

/-- analysing a settled row only cleans it -/
theorem analyze (h : Settled g ignores .none (above ++ r :: below)) :
    (above ++ r.analyzed g ignores (rangeAfter above) ::
      handTo (r.analyzed g ignores (rangeAfter above)).state.outgoing below).map Row.cleaned =
      (above ++ r :: below).map Row.cleaned := by
  obtain ⟨-, hr, hbelow⟩ := append_iff.1 h
  rw [rangePast_none] at hr
  have hhanded : handTo r.state.outgoing below = below := by
    cases below with
    | nil => rfl
    | cons next below =>
      rw [handTo, List.modifyHead_cons, Row.handed, if_pos (Row.incoming_of_settled hbelow.1)]
  rw [hr, show r.cleaned.state.outgoing = r.state.outgoing from rfl, hhanded]
  simp

/-- **Hiding settled rows leaves the others settled**: the line that they go behind hands on what the last of them did. -/
theorem covering {hidden : List Row} (hne : hidden ≠ []) (h : Settled g ignores range (above ++ r :: (hidden ++ below))) :
    Settled g ignores range (above ++ r.covering hidden :: below) := by
  obtain ⟨habove, hr, hrest⟩ := append_iff.1 h
  obtain ⟨-, hbelow⟩ := append_iff.1 hrest
  refine append_iff.2 ⟨habove, ?_, ?_⟩
  · -- what is noted when rows are hidden is for the range that the line leaves open
    have hknows : (Snapshot.extend r.state.snapshot r.text (hidden.map Row.kept)
        ⟨r.state.regions.outgoing, rangeAfter hidden⟩).knows r.state.regions.outgoing = true := by
      simp [Snapshot.knows, Snapshot.extend]
    refine Row.settled_iff.2 ⟨(Row.settled_iff.1 hr).1, ?_⟩
    exact congrArg some (Snapshot.carry_of_knows hknows)
  · have hout : (r.covering hidden).state.outgoing = rangePast r.state.outgoing hidden := by
      rw [rangePast_of_ne_nil hne]
      simp [LineState.outgoing, Row.covering, Snapshot.extend]
    rw [hout]
    exact hbelow

end Settled

namespace Session

variable {s t : Session}

/-- the rows of the session are settled -/
def Settled (s : Session) : Prop := Linewise.Settled s.grammar s.ignores .none s.rows

/-- once all lines are up to date, the rows are settled -/
theorem Reachable.settled (h : Reachable s) : s.rehighlight.2.Settled := by
  have hread : Reachable s.rehighlight.2 := h.step .rehighlight
  have hh := hread.highlighted
  exact .of_clean hh.threaded hh.lines hread.carries (rehighlight_rows_clean h.wellFormed)

/-- **Reading settled rows only cleans them.** -/
theorem Leads.settled (hl : Leads (·.isReading) s t) (h : s.WellFormed) (hs : s.Settled) :
    t.Settled ∧ t.rows.map Row.cleaned = s.rows.map Row.cleaned := by
  induction hl with
  | refl => exact ⟨hs, rfl⟩
  | @tail t m hl hm ha ih =>
    have hsame : (t.act m).rows.map Row.cleaned = t.rows.map Row.cleaned := by
      have he := (act_effect (hl.wellFormed h).sheet m ha).1
      have hsettled := ih.1
      rw [Settled] at hsettled
      generalize (t.act m).rows = rows' at he
      generalize t.rows = rows at he hsettled
      cases he with
      | quiet | unknown => rfl
      | analyze above r below => exact hsettled.analyze
      | _ => cases hm
    refine ⟨?_, hsame.trans ih.2⟩
    have hignores : (t.act m).ignores = t.ignores := by
      rw [act_ignores]
      cases m <;> first | rfl | cases hm
    rw [Settled, act_grammar, hignores]
    exact ih.1.congr hsame.symm

end Session

end Linewise
