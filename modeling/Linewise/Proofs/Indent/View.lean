/-
What the indentation of a line depends on.

Going up from a line, a line that is passed over leaves no trace and any other one shows its text; what is seen so is the
view of the line (`Sees`). Every test of a pattern walks up by itself, through whatever is passed over, and finds in the end
the entry of the view that it counts to (`walkBack_of_split`, `countedAbove?_text`), or fails where the view has none. So
two lines with one text and one view get the same units, in whatever documents they stand; only the first line of a
document, which has no line above it at all, is told apart from one whose view is empty. Edits do not move lines, so a line
keeps its view as long as the lines in it stay, no other comes in, and their texts are not touched.

Main statements:
- `sees_iff`: each line of a document has one view, and it is the list of texts above;
- `indent_of_sees`: the units of a line are those for its text and its view;
- `Exact.textsAbove_run`: edits of lines passed over, and of lines below, leave the view of a line;
- `indent_of_same_view`: the units are the same where text and view are, and after such edits.
-/
import Mathlib.Data.List.Induction
import Linewise.Indent.Engine
import Linewise.Proofs.Document.Order

namespace Linewise

/-! ## Patterns on views -/

/-- whether all tests pass for a line with this text and this view: each finds the text that it counts to -/
def IndentPattern.acceptsView (p : IndentPattern) (line : Text) (view : List Text) : Bool :=
  !p.tests.isEmpty && p.tests.all fun test => ((line :: view)[test.lookBack]?).any test.accepts

/-- units for a line with this text and this view -/
def unitsFor (patterns : List IndentPattern) (settings : IndentSettings) (line : Text) (view : List Text) : Nat :=
  let units := (view.head?.map settings.countUnits).getD 0
  match patterns.find? fun p => p.acceptsView line view with
  | none => units
  | some p => p.apply units

namespace Document

/-! ## The view of a line -/

/-- the lines above a line, nearest first -/
def above (d : Document) (id : LineId) : List LineId :=
  match d.row? id with
  | none => []
  | some row => (d.order.take row).reverse

/-- the texts above a line that are not passed over, nearest first -/
def textsAbove (d : Document) (ignored : LineId → Bool) (id : LineId) : List Text :=
  ((d.above id).filter fun above => !ignored above).map d.textOf

/-- what is seen from a line going up, nearest first: the texts of the lines above that are not passed over -/
inductive Sees (d : Document) (ignored : LineId → Bool) : LineId → List Text → Prop where
  | top {id : LineId} (h : d.previous? id = none) : Sees d ignored id []
  | passed {id up : LineId} {texts : List Text} (h : d.previous? id = some up) (hi : ignored up = true)
    (rest : Sees d ignored up texts) : Sees d ignored id texts
  | met {id up : LineId} {texts : List Text} (h : d.previous? id = some up) (hi : ignored up = false)
    (rest : Sees d ignored up texts) : Sees d ignored id (d.textOf up :: texts)

variable {d e : Document} {ignored ignored' : LineId → Bool} {id : LineId}

/-- a line has one view -/
theorem Sees.unique {texts texts' : List Text} (h : Sees d ignored id texts) (h' : Sees d ignored id texts') :
    texts' = texts := by
  induction h generalizing texts' with
  | top hnone =>
    cases h' with
    | top => rfl
    | passed hsome | met hsome => rw [hnone] at hsome; cases hsome
  | passed hsome hi _ ih =>
    cases h' with
    | top hnone => rw [hsome] at hnone; cases hnone
    | passed hsome' _ rest' =>
      cases hsome.symm.trans hsome'
      exact ih rest'
    | met hsome' hi' =>
      cases hsome.symm.trans hsome'
      rw [hi] at hi'
      cases hi'
  | met hsome hi _ ih =>
    cases h' with
    | top hnone => rw [hsome] at hnone; cases hnone
    | passed hsome' hi' =>
      cases hsome.symm.trans hsome'
      rw [hi] at hi'
      cases hi'
    | met hsome' _ rest' =>
      cases hsome.symm.trans hsome'
      rw [ih rest']

section Split

variable {above below : List LineId}

theorem above_of_split (h : d.WellFormed) (ho : d.order = above ++ id :: below) : d.above id = above.reverse := by
  simp only [Document.above, row?_of_split h ho, ho, List.take_left]

theorem textsAbove_of_split (h : d.WellFormed) (ho : d.order = above ++ id :: below) (ignored : LineId → Bool) :
    d.textsAbove ignored id = ((above.reverse.filter fun up => !ignored up).map d.textOf) := by
  rw [textsAbove, above_of_split h ho]

/-- the texts collected above a line are its view -/
theorem sees_textsAbove (h : d.WellFormed) (ho : d.order = above ++ id :: below) (ignored : LineId → Bool) :
    Sees d ignored id (d.textsAbove ignored id) := by
  -- the line directly above is the last of `above`, and from it the walk goes on in what stands before
  induction above using List.reverseRecOn generalizing id below with
  | nil =>
    rw [textsAbove_of_split h ho]
    exact .top (by rw [previous?_of_split h ho]; rfl)
  | append_singleton above up ih =>
    have hup : d.order = above ++ up :: (id :: below) := by rw [ho, List.append_assoc]; rfl
    have hprevious : d.previous? id = some up := by rw [previous?_of_split h ho, List.getLast?_concat]
    have hrest := ih hup
    rw [textsAbove_of_split h hup] at hrest
    rw [textsAbove_of_split h ho, List.reverse_concat]
    cases hi : ignored up with
    | true =>
      rw [List.filter_cons_of_neg (by simp [hi])]
      exact .passed hprevious hi hrest
    | false =>
      rw [List.filter_cons_of_pos (by simp [hi])]
      exact .met hprevious hi hrest

end Split

/-- **Each line of a document has one view**: the texts above it that are not passed over. -/
theorem sees_iff (h : d.WellFormed) (hid : id ∈ d.order) {texts : List Text} :
    Sees d ignored id texts ↔ texts = d.textsAbove ignored id := by
  obtain ⟨above, below, ho⟩ := List.append_of_mem hid
  have hsees := sees_textsAbove h ho ignored
  constructor
  · exact hsees.unique
  · rintro rfl
    exact hsees

/-! ## The walk of a test -/

@[simp] theorem walkBack_zero (d : Document) (ignored : LineId → Bool) (steps : Nat) (id : LineId) :
    d.walkBack ignored steps 0 id = some id := by
  cases steps <;> rfl

/-- one step up: a line that is passed over leaves the count as it is -/
theorem walkBack_step {up : LineId} (hp : d.previous? id = some up) (ignored : LineId → Bool) (steps count : Nat) :
    d.walkBack ignored (steps + 1) (count + 1) id =
      d.walkBack ignored steps (if ignored up then count + 1 else count) up := by
  simp only [walkBack, hp]

section Walk

variable {above below : List LineId}

/-- **A walk finds the line that it counts to.** It passes over what does not count, so it ends at an entry of the lines
above that do, and fails if there are too few; as many steps as there are lines above are enough. -/
theorem walkBack_of_split (h : d.WellFormed) (ho : d.order = above ++ id :: below) (ignored : LineId → Bool)
    {steps : Nat} (hsteps : above.length ≤ steps) (count : Nat) :
    d.walkBack ignored steps (count + 1) id = (above.reverse.filter fun up => !ignored up)[count]? := by
  -- as for the view, the walk goes on from the last line of `above`, with one step less
  induction above using List.reverseRecOn generalizing id below steps count with
  | nil =>
    have hprevious : d.previous? id = none := previous?_of_split h ho
    cases steps with
    | zero => rfl
    | succ steps => simp only [walkBack, hprevious, List.reverse_nil, List.filter_nil, List.getElem?_nil]
  | append_singleton above up ih =>
    have hup : d.order = above ++ up :: (id :: below) := by rw [ho, List.append_assoc]; rfl
    have hprevious : d.previous? id = some up := by rw [previous?_of_split h ho, List.getLast?_concat]
    rw [List.length_append, List.length_singleton] at hsteps
    obtain ⟨steps, rfl⟩ : ∃ rest, steps = rest + 1 := ⟨steps - 1, by omega⟩
    have hrest := ih hup (Nat.le_of_succ_le_succ hsteps)
    rw [walkBack_step hprevious, List.reverse_concat]
    by_cases hi : ignored up = true
    · rw [if_pos hi, List.filter_cons_of_neg (by simp [hi])]
      exact hrest count
    · rw [if_neg hi, List.filter_cons_of_pos (by simp [hi])]
      cases count with
      | zero => rw [walkBack_zero, List.getElem?_cons_zero]
      | succ count => exact hrest count

end Walk

/-- the text that a walk finds is the entry of the view that it counts to -/
theorem countedAbove?_text (h : d.WellFormed) (hid : id ∈ d.order) (ignored : LineId → Bool) (count : Nat) :
    (d.countedAbove? ignored (count + 1) id).bind d.text? = (d.textsAbove ignored id)[count]? := by
  obtain ⟨above, below, ho⟩ := List.append_of_mem hid
  have hsteps : above.length ≤ d.lineCount := by
    rw [lineCount, ho, List.length_append]
    exact Nat.le_add_right _ _
  rw [countedAbove?, walkBack_of_split h ho ignored hsteps, textsAbove_of_split h ho, List.getElem?_map]
  cases hfound : (above.reverse.filter fun up => !ignored up)[count]? with
  | none => rfl
  | some up =>
    have habove : up ∈ above := by
      have hmem := List.mem_of_mem_filter (List.mem_of_getElem? hfound)
      exact List.mem_reverse.1 hmem
    have hup : up ∈ d.order := by
      rw [ho]
      exact List.mem_append_left _ habove
    exact text?_eq_some h hup

/-- the tests of a pattern see the text and the view of a line and nothing else -/
theorem accepts_eq_acceptsView (h : d.WellFormed) (hid : id ∈ d.order) (ignored : LineId → Bool) (p : IndentPattern) :
    p.accepts d ignored id = p.acceptsView (d.textOf id) (d.textsAbove ignored id) := by
  have htarget : ∀ lookBack,
      (if lookBack = 0 then some id else d.countedAbove? ignored lookBack id).bind d.text? =
        (d.textOf id :: d.textsAbove ignored id)[lookBack]? := by
    intro lookBack
    cases lookBack with
    | zero => exact text?_eq_some h hid
    | succ count => exact countedAbove?_text h hid ignored count
  simp only [IndentPattern.accepts, IndentPattern.acceptsView, htarget]

theorem mem_of_previous? (h : d.WellFormed) (hp : d.previous? id ≠ none) : id ∈ d.order := by
  by_contra hid
  exact hp (by rw [previous?, row?_eq_none h hid, Option.bind_none])

/-- **Text and view of a line decide its units**, unless it is the first one. -/
theorem indent_of_sees (h : d.WellFormed) (hp : d.previous? id ≠ none) {texts : List Text} (hs : Sees d ignored id texts)
    (patterns : List IndentPattern) (settings : IndentSettings) :
    d.indent patterns settings ignored id = unitsFor patterns settings (d.textOf id) texts := by
  have hid := mem_of_previous? h hp
  have hview : texts = d.textsAbove ignored id := (sees_iff h hid).1 hs
  have hunits : (d.countedAbove? ignored 1 id).bind d.text? = texts.head? := by
    rw [countedAbove?_text h hid, hview, List.head?_eq_getElem?]
  have hdecides : d.decidingPattern? patterns ignored id =
      patterns.find? fun p => p.acceptsView (d.textOf id) texts := by
    simp only [decidingPattern?, accepts_eq_acceptsView h hid, hview]
  rw [indent, if_neg (by simpa using hp), hunits, hdecides]
  rfl

/-- lines with one text and one view get the same units -/
theorem indent_eq_of_sees {d' : Document} {id' : LineId} {texts : List Text} (hd : d.WellFormed) (hd' : d'.WellFormed)
    (hp : d.previous? id ≠ none) (hp' : d'.previous? id' ≠ none) (htext : d.text? id = d'.text? id')
    (hs : Sees d ignored id texts) (hs' : Sees d' ignored' id' texts) (patterns : List IndentPattern)
    (settings : IndentSettings) :
    d.indent patterns settings ignored id = d'.indent patterns settings ignored' id' := by
  rw [indent_of_sees hd hp hs, indent_of_sees hd' hp' hs', textOf, textOf, htext]

/-! ## Edits -/

/-- where two documents have their lines in the same order and the same lines count above a line, they count in the same
order -/
theorem filter_above_of_sameOrder (hd : d.WellFormed) (he : e.WellFormed) (hs : SameOrder d.order e.order)
    (hid : id ∈ d.order) (hid' : id ∈ e.order)
    (hview : ∀ up, up ∈ e.above id ∧ ignored' up = false ↔ up ∈ d.above id ∧ ignored up = false) :
    (e.above id).filter (fun up => !ignored' up) = (d.above id).filter fun up => !ignored up := by
  obtain ⟨above, below, ho⟩ := List.append_of_mem hid
  obtain ⟨above', below', ho'⟩ := List.append_of_mem hid'
  rw [ho, ho'] at hs
  have habove := hs.above (not_mem_above hd ho) (not_mem_below hd ho)
  rw [above_of_split hd ho, above_of_split he ho'] at hview ⊢
  rw [List.filter_reverse, List.filter_reverse]
  congr 1
  apply habove.filter_eq
  simpa using hview

/-- **Edits leave the view of a line** if the same lines count above it as before, with the same texts. -/
theorem Exact.textsAbove_run (h : d.Exact) (edits : List Edit) (hid : id ∈ d.order) (hid' : id ∈ (d.run edits).2.order)
    (hview : ∀ up, up ∈ (d.run edits).2.above id ∧ ignored' up = false ↔ up ∈ d.above id ∧ ignored up = false)
    (htext : ∀ up ∈ d.above id, ignored up = false → (d.run edits).2.text? up = d.text? up) :
    (d.run edits).2.textsAbove ignored' id = d.textsAbove ignored id := by
  have hexact := (run_refines h edits).2.2
  rw [textsAbove, textsAbove,
    filter_above_of_sameOrder h.wellFormed hexact.wellFormed (h.sameOrder_run edits) hid hid' hview]
  apply List.map_congr_left
  intro up hup
  obtain ⟨hmem, hcounts⟩ := List.mem_filter.1 hup
  rw [textOf, textOf, htext up hmem (by simpa using hcounts)]

/-- **Units depend on the text and the view of a line only.** Two lines, neither the first of its document, that have the
same text and see the same texts above them get the same units, whatever else the documents hold and whichever lines are
passed over. So no edits change the units of a line as long as it keeps its text and is not the first one, and the lines
that count above it stay, with their texts, and no others come in: lines passed over above it, and all lines below it, may
be put in, taken out and written anew. -/
theorem indent_of_same_view (patterns : List IndentPattern) (settings : IndentSettings) :
    (∀ (d d' : Document) (ignored ignored' : LineId → Bool) (id id' : LineId) (texts : List Text),
      d.WellFormed → d'.WellFormed → d.previous? id ≠ none → d'.previous? id' ≠ none → d.text? id = d'.text? id' →
      Sees d ignored id texts → Sees d' ignored' id' texts →
      d.indent patterns settings ignored id = d'.indent patterns settings ignored' id') ∧
    ∀ (d : Document) (edits : List Edit) (ignored ignored' : LineId → Bool) (id : LineId),
      d.Exact → d.previous? id ≠ none → (d.run edits).2.previous? id ≠ none →
      (d.run edits).2.text? id = d.text? id →
      (∀ up, up ∈ (d.run edits).2.above id ∧ ignored' up = false ↔ up ∈ d.above id ∧ ignored up = false) →
      (∀ up ∈ d.above id, ignored up = false → (d.run edits).2.text? up = d.text? up) →
      (d.run edits).2.indent patterns settings ignored' id = d.indent patterns settings ignored id := by
  constructor
  · intro d d' ignored ignored' id id' texts hd hd' hp hp' htext hs hs'
    exact indent_eq_of_sees hd hd' hp hp' htext hs hs' patterns settings
  · intro d edits ignored ignored' id h hp hp' htext hview htexts
    have hwell := (run_refines h edits).2.2.wellFormed
    have hid := mem_of_previous? h.wellFormed hp
    have hid' := mem_of_previous? hwell hp'
    have hsame := h.textsAbove_run edits hid hid' hview htexts
    have hbefore : Sees d ignored id (d.textsAbove ignored id) := (sees_iff h.wellFormed hid).2 rfl
    have hafter : Sees (d.run edits).2 ignored' id (d.textsAbove ignored id) := (sees_iff hwell hid').2 hsame.symm
    exact indent_eq_of_sees hwell h.wellFormed hp' hp htext hafter hbefore patterns settings

/-- one unit more below a line that ends in a brace -/
def indentBelowBrace : IndentPattern := ⟨"block", .increment, 1, [.compile ['\\', '{', '$'] (-1) false]⟩

/-- a brace, a note that is passed over, a call, and a line below it -/
def withNote : Document := ofText ['{', '\n', '#', '\n', 'x', '\n', 'y']

/-- the note is taken out, another one is put in, and the line below is emptied -/
def noteEdits : List Edit := [.remove ⟨1⟩, .insertBefore ⟨2⟩ ['#', '#'], .setText ⟨3⟩ []]

/-- the call stands one unit below the brace, with the note between them or not, with another note in place of the first,
and with another line below -/
theorem indent_of_same_view_note :
    (Sees withNote (· == ⟨1⟩) ⟨2⟩ [['{']] ∧ Sees (ofText ['{', '\n', 'x']) (fun _ => false) ⟨1⟩ [['{']] ∧
      withNote.indent [indentBelowBrace] {} (· == ⟨1⟩) ⟨2⟩ =
        (ofText ['{', '\n', 'x']).indent [indentBelowBrace] {} (fun _ => false) ⟨1⟩) ∧
    (withNote.run noteEdits).2.lines = [['{'], ['#', '#'], ['x'], []] ∧
    (withNote.run noteEdits).2.indent [indentBelowBrace] {} (· == ⟨4⟩) ⟨2⟩ =
      withNote.indent [indentBelowBrace] {} (· == ⟨1⟩) ⟨2⟩ ∧
    withNote.indent [indentBelowBrace] {} (· == ⟨1⟩) ⟨2⟩ = 1 := by
  obtain ⟨htwo, hrun⟩ := indent_of_same_view [indentBelowBrace] {}
  have hexact : withNote.Exact := exact_ofText _
  have hplain : Sees (ofText ['{', '\n', 'x']) (fun _ => false) ⟨1⟩ [['{']] :=
    (sees_iff (exact_ofText _).wellFormed (by decide)).2 (by decide)
  have hnote : Sees withNote (· == ⟨1⟩) ⟨2⟩ [['{']] := (sees_iff hexact.wellFormed (by decide)).2 (by decide)
  have habove : withNote.above ⟨2⟩ = [⟨1⟩, ⟨0⟩] := by decide
  have habove' : (withNote.run noteEdits).2.above ⟨2⟩ = [⟨4⟩, ⟨0⟩] := by decide
  refine ⟨⟨hnote, hplain, ?_⟩, by decide, ?_, by decide⟩
  · refine htwo _ _ _ _ _ _ _ hexact.wellFormed (exact_ofText _).wellFormed ?_ ?_ ?_ hnote hplain <;> decide
  · refine hrun withNote noteEdits _ _ _ hexact (by decide) (by decide) (by decide) ?_ ?_
    · intro up
      rw [habove, habove']
      grind
    · rw [habove]
      decide

-- the first line is told apart: with a line above it that is passed over a pattern can give it a unit, without one none
example :
    (ofText ['#', '\n', 'x']).indent [⟨"call", .increment, 1, [.compile ['x'] 0 false]⟩] {} (· == ⟨0⟩) ⟨1⟩ = 1 ∧
      ((ofText ['#', '\n', 'x']).run [.remove ⟨0⟩]).2.indent [⟨"call", .increment, 1, [.compile ['x'] 0 false]⟩] {}
        (fun _ => false) ⟨1⟩ = 0 := by decide

end Document

end Linewise
