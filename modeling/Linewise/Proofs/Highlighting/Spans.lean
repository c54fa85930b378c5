/-
From the regions of a line to its spans.

Matches are searched for in parts of one another and their places added up in bytes; spans count characters, and a region
that does not fall on character boundaries would be left out without notice. No region of a line is: each has the text of
its match (`analyze_wellFormed`), and a region that has a text is drawn by a span over the same characters
(`toSpan?_of_hasText`).

Main statement: `regions_become_spans`, which also says that a range that stays open has the line to itself
(`analyze_resumed`).
-/
import Linewise.Proofs.Highlighting.Lost
import Linewise.Region.Column

namespace Linewise

/-! ## Cutting at character boundaries -/

/-- the length of the front cuts it off -/
theorem Text.cut?_append (front back : Text) : cut? (width front) (front ++ back) = some (front, back) := by
  induction front with
  | nil => simp [cut?]
  | cons c cs ih =>
    rw [List.cons_append, width_cons, cut?_cons, ih]
    rfl

theorem Text.width_pos_iff {text : Text} : 0 < width text ↔ text ≠ [] := by
  cases text with
  | nil => simp
  | cons c cs =>
    have hpos := c.utf8Size_pos
    simp only [width_cons, ne_eq, reduceCtorEq, not_false_eq_true, iff_true]
    omega

namespace Region

variable {text inner : Text} {r : Region} {rs : List Region}

/-- `inner` stands in the line where the region begins, and is as long -/
def HasText (text : Text) (r : Region) (inner : Text) : Prop := Text.SliceAt text r.position inner ∧ Text.width inner = r.length

/-- the region is a part of the line that is not empty, with what the grammar says of its rule -/
structure WellFormed (g : Grammar) (text : Text) (r : Region) : Prop where
  nonempty : 0 < r.length
  hasText : ∃ inner, r.HasText text inner
  rule : ∃ rule, g.rule? r.rule = some rule ∧ r.parent = rule.parent ∧ r.flags = rule.flags ∧ r.style = rule.style

/-- the span stands over characters of the line, which are the text of the region, and has its style and rule -/
structure DrawnBy (text : Text) (r : Region) (span : StyledSpan) : Prop where
  nonempty : span.start < span.stop
  within : span.stop ≤ text.length
  hasText : r.HasText text (text.extract span.start span.stop)
  style : span.style = r.style
  rule : span.rule = r.rule

/-- **A region that has a text is drawn.** -/
theorem toSpan?_of_hasText (h : r.HasText text inner) (hlength : 0 < r.length) :
    ∃ span, r.toSpan? text = some span ∧ r.DrawnBy text span := by
  obtain ⟨⟨front, back, rfl, hposition⟩, hwidth⟩ := h
  have hinner : 0 < inner.length := List.length_pos_iff.2 (Text.width_pos_iff.1 (hwidth ▸ hlength))
  refine ⟨⟨front.length, front.length + inner.length, r.style, r.rule⟩, ?_, ?_⟩
  · rw [toSpan?, if_neg (Nat.ne_of_gt hlength), List.append_assoc, ← hposition, Text.cut?_append]
    simp only [← hwidth, Text.cut?_append]
  · have hextract : (front ++ inner ++ back).extract front.length (front.length + inner.length) = inner := by
      simp
    refine ⟨Nat.lt_add_of_pos_right hinner, ?_, ?_, rfl, rfl⟩
    · simp only [List.length_append]
      omega
    · rw [hextract]
      exact ⟨⟨front, back, rfl, hposition⟩, hwidth⟩

/-- regions that have texts are drawn one by one -/
theorem forall₂_drawnBy (h : ∀ r ∈ rs, 0 < r.length ∧ ∃ inner, r.HasText text inner) :
    List.Forall₂ (DrawnBy text) rs (rs.filterMap (·.toSpan? text)) := by
  induction rs with
  | nil => exact .nil
  | cons r rs ih =>
    obtain ⟨⟨hlength, inner, hinner⟩, h⟩ := List.forall_mem_cons.1 h
    obtain ⟨span, hspan, hdrawn⟩ := toSpan?_of_hasText hinner hlength
    rw [List.filterMap_cons_some hspan]
    exact .cons hdrawn (ih h)

end Region

namespace Grammar

open Region Regex

variable {g : Grammar} {text : Text} {incoming : RuleId} {r whole : Region} {rule : Rule}

/-! ## The regions of a line -/

theorem analyze_wellFormed (hg : g.Built) (hr : r ∈ (g.analyze text incoming).regions) : r.WellFormed g text := by
  obtain ⟨rule, base, hit, hfound, rfl⟩ := (mem_candidates_iff_found hg).1 (mem_candidates_of_mem hr)
  obtain ⟨hslice, hproper⟩ := hfound.sliceAt
  have hwidth : Text.width hit.text = hit.stop.offset - hit.start.offset := by
    rw [← (Hit.rest_eq_text_append hproper.stop_mem).2, Nat.add_sub_cancel_left]
  exact ⟨Nat.sub_pos_of_lt hproper.lt, ⟨hit.text, hslice, hwidth⟩, rule, hg.rule?_eq hfound.mem, rfl, rfl, rfl⟩

/-! ## A range that stays open -/

/-- the range covers the line, and is the only region without a parent -/
theorem exists_whole (hg : g.Built) (hopen : g.openUntil text incoming = none) (hne : text ≠ []) :
    ∃ whole ∈ (g.analyze text incoming).regions, whole.position = 0 ∧ whole.length = Text.width text ∧
      whole.rule = incoming ∧ whole.isNested = false ∧
      ∀ r ∈ (g.analyze text incoming).regions, r.isNested = false → r = whole := by
  have hnot : g.openUntil text incoming ≠ some 0 := by simp [hopen]
  obtain ⟨rule, hcarried⟩ := exists_carried hnot
  have hiff := (analyze_of_open hg hopen).2
  obtain ⟨hwhole, htop⟩ := (hiff _).2 ⟨Text.width_pos_iff.2 hne, rule, hcarried, rfl⟩
  have honly : ∀ r ∈ (g.analyze text incoming).regions, r.isNested = false → r = .ofRule rule 0 (Text.width text) := by
    intro r hr hr'
    obtain ⟨-, other, hother, rfl⟩ := (hiff r).1 ⟨mem_candidates_of_mem hr, hr'⟩
    rw [Option.some.inj (hother.symm.trans hcarried)]
  obtain ⟨k, hk, hk', -⟩ := analyze_cover hg hwhole htop
  exact ⟨_, honly k hk hk' ▸ hk, rfl, rfl, (carried?_some hcarried).2.1, htop, honly⟩

/-- a region without a parent that covers the line encloses what has one -/
theorem encloses_of_whole (hg : g.Built) (hwhole : whole ∈ (g.analyze text incoming).regions) (hposition : whole.position = 0)
    (hlength : whole.length = Text.width text) (htop : whole.isNested = false) (hr : r ∈ (g.analyze text incoming).regions)
    (hnested : r.isNested = true) : Encloses (g.analyze text incoming).regions whole r := by
  have hlt : whole.order r = .lt := by
    rcases Nat.eq_zero_or_pos r.position with hzero | hpos
    · exact order_of_nested (hposition.trans hzero.symm) htop hnested
    · exact order_of_position (hposition ▸ hpos)
  have hcovers := candidates_covers hg (mem_candidates_of_mem hr)
  have hcovers' : whole.covers r.position = true := by
    obtain ⟨hpositive, ⟨inner, hslice, hwidth⟩, -⟩ := analyze_wellFormed hg hr
    have hinside := hslice.width_le
    simp only [covers_iff, stop]
    omega
  exact (analyze_forest hg text incoming).encloses_of_covers (analyze_sorted g text incoming) hwhole hr hlt hcovers' hcovers

/-- **A range that stays open comes first and encloses all else.** -/
theorem analyze_resumed (hg : g.Built) (hopen : g.openUntil text incoming = none) (hne : text ≠ []) :
    ∃ first rest, (g.analyze text incoming).regions = first :: rest ∧ first.position = 0 ∧
      first.length = Text.width text ∧ first.rule = incoming ∧
      ∀ r ∈ rest, Encloses (g.analyze text incoming).regions first r := by
  obtain ⟨whole, hwhole, hposition, hlength, hrule, htop, honly⟩ := exists_whole hg hopen hne
  have hencloses : ∀ r ∈ (g.analyze text incoming).regions, r ≠ whole → Encloses (g.analyze text incoming).regions whole r := by
    intro r hr hother
    have hnested : r.isNested = true := by
      by_contra hnot
      exact hother (honly r hr (by simpa using hnot))
    exact encloses_of_whole hg hwhole hposition hlength htop hr hnested
  have hsorted := analyze_sorted g text incoming
  cases hregions : (g.analyze text incoming).regions with
  | nil => simp [hregions] at hwhole
  | cons first rest =>
    rw [hregions] at hsorted hwhole hencloses
    obtain ⟨hfirst, -⟩ := List.pairwise_cons.1 hsorted
    have hsame : first = whole := by
      by_contra hother
      have hbefore := (hencloses first List.mem_cons_self hother).order_lt
      have hafter := hfirst whole ((List.mem_cons.1 hwhole).resolve_left (Ne.symm hother))
      exact order_irrefl _ (Std.TransCmp.lt_trans hbefore hafter)
    subst hsame
    refine ⟨first, rest, rfl, hposition, hlength, hrule, fun r hr => hencloses r (List.mem_cons_of_mem _ hr) ?_⟩
    rintro rfl
    exact order_irrefl _ (hfirst r hr)

/-- **The regions of a line are well formed and become spans.** Each is a part of the line that is not empty and falls on
character boundaries, with the parent, flags and style of its rule. A range that stays open covers the line that is not
empty and encloses all other regions. The spans of the line draw its regions one by one: the characters between the
columns of a span are the text of its region. -/
theorem regions_become_spans (hg : g.Built) (text : Text) (incoming : RuleId) :
    (∀ r ∈ (g.analyze text incoming).regions, r.WellFormed g text) ∧
      (g.openUntil text incoming = none → text ≠ [] →
        ∃ first rest, (g.analyze text incoming).regions = first :: rest ∧ first.position = 0 ∧
          first.length = Text.width text ∧ first.rule = incoming ∧
          ∀ r ∈ rest, Encloses (g.analyze text incoming).regions first r) ∧
      List.Forall₂ (DrawnBy text) (g.analyze text incoming).regions ((g.analyze text incoming).spans text) := by
  refine ⟨fun r hr => analyze_wellFormed hg hr, analyze_resumed hg, forall₂_drawnBy fun r hr => ?_⟩
  have hr := analyze_wellFormed hg hr
  exact ⟨hr.nonempty, hr.hasText⟩

/-- comments that may go on over lines, with tasks marked in them -/
def taskComments : Grammar where
  name := "tasks"
  rules := [{ Rule.range ⟨1⟩ "comment" "/\\*".toList "\\*/".toList (.union .span .comment) 1 with children := [⟨2⟩] },
    { Rule.keyword ⟨2⟩ "task" "TODO".toList .none 2 with parent := ⟨1⟩ }]
  delimiters := []
  indents := []

theorem taskComments_built : taskComments.Built := ⟨taskComments.rules, rfl⟩

/-- a task behind a letter of two bytes, in a comment that stays open: it begins at byte 3 and in column 2 -/
theorem regions_become_spans_task :
    (taskComments.analyze "é TODO".toList ⟨1⟩).regions =
        [⟨0, 7, ⟨1⟩, .none, .union .span .comment, 1⟩, ⟨3, 4, ⟨2⟩, ⟨1⟩, .none, 2⟩] ∧
      (∃ first rest, (taskComments.analyze "é TODO".toList ⟨1⟩).regions = first :: rest ∧
        ∀ r ∈ rest, Encloses (taskComments.analyze "é TODO".toList ⟨1⟩).regions first r) ∧
      List.Forall₂ (DrawnBy "é TODO".toList) (taskComments.analyze "é TODO".toList ⟨1⟩).regions
        [⟨0, 6, 1, ⟨1⟩⟩, ⟨2, 6, 2, ⟨2⟩⟩] := by
  obtain ⟨-, hopen, hspans⟩ := regions_become_spans taskComments_built "é TODO".toList ⟨1⟩
  obtain ⟨first, rest, hregions, -, -, -, hencloses⟩ := hopen (by decide) (by decide)
  have hvalue : (taskComments.analyze "é TODO".toList ⟨1⟩).spans "é TODO".toList = [⟨0, 6, 1, ⟨1⟩⟩, ⟨2, 6, 2, ⟨2⟩⟩] := by
    decide
  rw [hvalue] at hspans
  exact ⟨by decide, ⟨first, rest, hregions, hencloses⟩, hspans⟩

end Grammar

end Linewise
