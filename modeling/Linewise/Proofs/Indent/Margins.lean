/-
Margins that are written are read back.

A margin is written in one style, tabs or runs of spaces, behind the base indentation; it is read in any mixture of the two.
What is written for a number of units reads as that number (`countUnits_reindent`): no more of the base is dropped than was
written, and the content behind the margin begins with neither space nor tab, so that reading stops there.

A caret is a byte offset; what stands to its right is the rest of the line from there on (`Text.rightOf`), if the offset falls
between two characters. Writing another margin leaves what stands right of a caret behind the margin (`rightOf_moveCaret`).

`applyIndent_round_trip` puts these together for a line of a document.
-/
import Mathlib.Data.List.DropRight
import Linewise.Indent.Engine
import Linewise.Proofs.Document.Edits

namespace Linewise

namespace Text

/-! ## Contents and carets -/

theorem isIndent_of_content {text : Text} {c : Char} {rest : Text} (h : content text = c :: rest) : isIndent c = false := by
  have hnot := List.head?_dropWhile_not isIndent text
  rw [content] at h
  rw [h] at hnot
  simpa using hnot

theorem margin_append_content (text : Text) : margin text ++ content text = text := List.takeWhile_append_dropWhile

/-- spaces and tabs in front of a content leave it alone -/
theorem content_append_content {front : Text} (h : ∀ c ∈ front, isIndent c = true) (text : Text) :
    content (front ++ content text) = content text := by
  rw [content, content, List.dropWhile_append_of_pos h]
  exact List.dropWhile_idempotent isIndent text

/-- the text to the right of a caret, if that stands between two characters -/
def rightOf (caret : Nat) (text : Text) : Option Text := (cut? caret text).map (·.2)

/-- a caret that moves along with the text keeps what is to its right -/
theorem rightOf_append (front text : Text) (caret : Nat) :
    rightOf (width front + caret) (front ++ text) = rightOf caret text := by
  induction front with
  | nil => rw [width_nil, Nat.zero_add, List.nil_append]
  | cons c front ih =>
    rw [← ih, rightOf, rightOf, width_cons, Nat.add_assoc, List.cons_append, cut?_cons, Option.map_map]
    rfl

end Text

namespace IndentSettings

variable (s : IndentSettings)

/-! ## Units -/

theorem tabSpaces_eq : s.tabSpaces = ' ' :: List.replicate (max s.tabWidth 1 - 1) ' ' := by
  rw [← List.replicate_succ, tabSpaces]
  congr 1
  omega

theorem isIndent_unit : ∀ c ∈ s.unit, Text.isIndent c = true := by
  intro c hc
  unfold unit at hc
  split_ifs at hc
  · rw [List.eq_of_mem_replicate hc]
    rfl
  · rw [List.mem_singleton.1 hc]
    rfl

theorem isIndent_indentation (units : Nat) : ∀ c ∈ s.indentation units, Text.isIndent c = true := by
  intro c hc
  rw [indentation, List.mem_append, List.mem_flatten] at hc
  rcases hc with hbase | ⟨unit, hunit, hc⟩
  · rw [List.eq_of_mem_replicate hbase]
    rfl
  · rw [List.eq_of_mem_replicate hunit] at hc
    exact s.isIndent_unit c hc

/-- a unit is read in the style it is written in -/
theorem dropUnit?_unit (rest : Text) : s.dropUnit? (s.unit ++ rest) = some rest := by
  unfold unit
  split_ifs
  · have hprefix : s.tabSpaces.isPrefixOf (s.tabSpaces ++ rest) = true := by simp
    have hdrop : (s.tabSpaces ++ rest).drop s.tabSpaces.length = rest := List.drop_left
    have hspace : s.tabSpaces ++ rest = ' ' :: (List.replicate (max s.tabWidth 1 - 1) ' ' ++ rest) := by
      rw [tabSpaces_eq, List.cons_append]
    rw [hspace] at hprefix hdrop ⊢
    unfold dropUnit?
    split
    · rename_i heq
      cases heq
    · rw [if_pos hprefix, hdrop]
  · rfl

/-- no unit stands in front of a content -/
theorem dropUnit?_content (text : Text) : s.dropUnit? (Text.content text) = none := by
  cases hcontent : Text.content text with
  | nil => simp [dropUnit?, tabSpaces_eq]
  | cons c rest =>
    have hc := Text.isIndent_of_content hcontent
    simp only [Text.isIndent, Bool.or_eq_false_iff, beq_eq_false_iff_ne] at hc
    unfold dropUnit?
    split
    · rename_i heq
      exact absurd (List.cons.inj heq).1 hc.2
    · simp [tabSpaces_eq, Ne.symm hc.1]

/-- as many units are read as are written; each is a character or more, so as many rounds will do -/
theorem unitsIn_flatten {rest : Text} (hrest : s.dropUnit? rest = none) (units : Nat) {fuel : Nat} (hf : units ≤ fuel) :
    s.unitsIn fuel ((List.replicate units s.unit).flatten ++ rest) = units := by
  induction units generalizing fuel with
  | zero =>
    cases fuel with
    | zero => rfl
    | succ fuel => simp [unitsIn, hrest]
  | succ units ih =>
    cases fuel with
    | zero => cases hf
    | succ fuel =>
      rw [List.replicate_succ, List.flatten_cons, List.append_assoc, unitsIn, dropUnit?_unit]
      simp only
      rw [ih (Nat.le_of_succ_le_succ hf), Nat.add_comm]

/-- the base indentation is dropped as it was written, whatever spaces follow -/
theorem dropBase_append (rest : Text) : s.dropBase (List.replicate s.baseIndentation ' ' ++ rest) = rest := by
  have htake : (List.replicate s.baseIndentation ' ' ++ rest).take s.baseIndentation =
      List.replicate s.baseIndentation ' ' := List.take_left' List.length_replicate
  have hall : (List.replicate s.baseIndentation ' ').takeWhile (· == ' ') = List.replicate s.baseIndentation ' ' := by
    simp
  rw [dropBase, htake, hall]
  exact List.drop_left

theorem le_length_flatten (units : Nat) : units ≤ (List.replicate units s.unit).flatten.length := by
  have hunit : 1 ≤ s.unit.length := by
    unfold unit
    split_ifs
    · rw [tabSpaces_eq, List.length_cons]
      omega
    · exact Nat.le_refl 1
  rw [List.length_flatten, List.map_replicate, List.sum_replicate_nat]
  exact Nat.le_mul_of_pos_right units hunit

/-- **The units written in front of a line are read back.** -/
theorem countUnits_reindent (text : Text) (units : Nat) : s.countUnits (s.reindent text units) = units := by
  have hle := s.le_length_flatten units
  rw [countUnits, reindent, indentation, List.append_assoc, dropBase_append]
  refine s.unitsIn_flatten (s.dropUnit?_content text) units ?_
  simp only [List.length_append]
  omega

/-- writing the same margin again changes nothing -/
theorem reindent_reindent (text : Text) (units : Nat) :
    s.reindent (s.reindent text units) units = s.reindent text units := by
  rw [reindent, reindent, Text.content_append_content (s.isIndent_indentation units)]

/-! ## Carets -/

theorem moveCaret_of_le {text : Text} {caret : Nat} (h : caret ≤ Text.width (Text.margin text)) (units : Nat) :
    s.moveCaret text units caret = Text.width (s.indentation units) := if_pos h

/-- **A caret behind the margin keeps the text to its right.** -/
theorem rightOf_moveCaret {text : Text} {caret : Nat} (h : Text.width (Text.margin text) ≤ caret) (units : Nat) :
    Text.rightOf (s.moveCaret text units caret) (s.reindent text units) = Text.rightOf caret text := by
  obtain ⟨behind, rfl⟩ := Nat.exists_eq_add_of_le h
  have hmoved : s.moveCaret text units (Text.width (Text.margin text) + behind) =
      Text.width (s.indentation units) + behind := by
    unfold moveCaret
    simp only
    split_ifs <;> omega
  calc Text.rightOf (s.moveCaret text units (Text.width (Text.margin text) + behind)) (s.reindent text units)
      _ = Text.rightOf behind (Text.content text) := by rw [hmoved, reindent, Text.rightOf_append]
      _ = Text.rightOf (Text.width (Text.margin text) + behind) (Text.margin text ++ Text.content text) :=
        (Text.rightOf_append _ _ _).symm
      _ = Text.rightOf (Text.width (Text.margin text) + behind) text := by rw [Text.margin_append_content]

end IndentSettings

namespace Document

/-! ## Lines of a document -/

/-- a line given another text; no other line changes -/
theorem setText?_texts {d : Document} {id : LineId} {old : Text} (h : d.text? id = some old) (text : Text) :
    ∃ e, d.setText? id text = some e ∧ e.order = d.order ∧ e.text? id = some text ∧
      ∀ x, x ≠ id → e.text? x = d.text? x := by
  obtain ⟨slot, hslot, -⟩ := Option.map_eq_some_iff.1 h
  have hcontains : d.contains id = true := by rw [contains, hslot, Option.isSome_some]
  refine ⟨_, if_pos hcontains, rfl, ?_, ?_⟩
  · rw [text?, slot?, slot?_setText, hslot, Option.map_map, Option.map_some]
    simp
  · intro x hx
    rw [text?, slot?, slot?_setText, Option.map_map]
    simp only [if_neg hx]
    rfl

/-- a line whose margin is as it would be written stays as it is -/
theorem applyIndent?_of_written {d : Document} {id : LineId} {text : Text} (h : d.text? id = some text)
    {settings : IndentSettings} {units : Nat} (hw : settings.reindent text units = text) (caret : Option Nat) :
    d.applyIndent? settings id units caret = some (⟨units, false, caret.map (settings.moveCaret text units)⟩, d) := by
  simp only [applyIndent?, h, hw, bne_self_eq_false, Bool.false_eq_true, if_false]

/-- what writing the margin of a line makes of the document -/
theorem applyIndent?_spec {d : Document} {id : LineId} {text : Text} (h : d.text? id = some text)
    (settings : IndentSettings) (units : Nat) (caret : Option Nat) :
    ∃ e, d.applyIndent? settings id units caret =
        some (⟨units, settings.reindent text units != text, caret.map (settings.moveCaret text units)⟩, e) ∧
      e.order = d.order ∧ e.text? id = some (settings.reindent text units) ∧ ∀ x, x ≠ id → e.text? x = d.text? x := by
  by_cases hw : settings.reindent text units = text
  · refine ⟨d, ?_, rfl, ?_, fun _ _ => rfl⟩
    · rw [applyIndent?_of_written h hw caret, hw, bne_self_eq_false]
    · rw [h, hw]
  · obtain ⟨e, he, hspec⟩ := setText?_texts h (settings.reindent text units)
    refine ⟨e, ?_, hspec⟩
    simp only [applyIndent?, h, bne_iff_ne.2 hw, if_true, he, Option.getD_some]

/-- **Indentation is read as it was written.** Writing so many units in front of a line gives it that margin and the content
it had, and no other line changes. Read again, the margin is that many units; written again, it is the same. A caret in
the old margin goes to the end of the new one, and one at its end or behind it keeps the text to its right. -/
theorem applyIndent_round_trip {d : Document} {id : LineId} {text : Text} (h : d.text? id = some text)
    (settings : IndentSettings) (units : Nat) (caret : Option Nat) :
    ∃ outcome e, d.applyIndent? settings id units caret = some (outcome, e) ∧
      e.text? id = some (settings.indentation units ++ Text.content text) ∧
      settings.countUnits (settings.indentation units ++ Text.content text) = units ∧
      outcome.units = units ∧
      (outcome.changed = true ↔ settings.indentation units ++ Text.content text ≠ text) ∧
      (∀ again, ∃ second, e.applyIndent? settings id units again = some (second, e) ∧ second.changed = false) ∧
      (caret = none → outcome.caret = none) ∧
      (∀ column, caret = some column → ∃ moved, outcome.caret = some moved ∧
        (column ≤ Text.width (Text.margin text) → moved = Text.width (settings.indentation units)) ∧
        (Text.width (Text.margin text) ≤ column →
          Text.rightOf moved (settings.indentation units ++ Text.content text) = Text.rightOf column text)) ∧
      e.order = d.order ∧ ∀ x, x ≠ id → e.text? x = d.text? x := by
  obtain ⟨e, happly, horder, hwritten, hothers⟩ := applyIndent?_spec h settings units caret
  refine ⟨_, e, happly, hwritten, settings.countUnits_reindent text units, rfl, bne_iff_ne, ?_, ?_, ?_, horder, hothers⟩
  · intro again
    exact ⟨_, applyIndent?_of_written hwritten (settings.reindent_reindent text units) again, rfl⟩
  · rintro rfl
    rfl
  · rintro column rfl
    exact ⟨_, rfl, fun hle => settings.moveCaret_of_le hle units, fun hle => settings.rightOf_moveCaret hle units⟩

/-- two units of two spaces behind one space take the place of a tab and a space, and the caret stays before the letter -/
theorem applyIndent_round_trip_base :
    (ofText ['a', '\n', '\t', ' ', 'é']).text? ⟨1⟩ = some ['\t', ' ', 'é'] ∧
      ∃ outcome e, (ofText ['a', '\n', '\t', ' ', 'é']).applyIndent? ⟨2, true, 1⟩ ⟨1⟩ 2 (some 2) = some (outcome, e) ∧
        e.text? ⟨1⟩ = some [' ', ' ', ' ', ' ', ' ', 'é'] ∧ outcome.changed = true ∧
        IndentSettings.countUnits ⟨2, true, 1⟩ [' ', ' ', ' ', ' ', ' ', 'é'] = 2 ∧
        ∃ moved, outcome.caret = some moved ∧ Text.rightOf moved [' ', ' ', ' ', ' ', ' ', 'é'] = some ['é'] := by
  have hline : (ofText ['a', '\n', '\t', ' ', 'é']).text? ⟨1⟩ = some ['\t', ' ', 'é'] := by decide
  obtain ⟨outcome, e, happly, hwritten, hcount, -, hchanged, -, -, hcaret, -, -⟩ :=
    applyIndent_round_trip hline ⟨2, true, 1⟩ 2 (some 2)
  obtain ⟨moved, hmoved, -, hright⟩ := hcaret 2 rfl
  exact ⟨hline, outcome, e, happly, hwritten, hchanged.2 (by decide), hcount, moved, hmoved, hright (by decide)⟩

end Document

end Linewise
