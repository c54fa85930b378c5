/-
Where a rule matches in a text.

A range that begins at a place is determined by the place: it runs from the match of its opening pattern there to the
end of the next match of its closing one, or to the end of the text (`IsRange`). A rule is told to go on in the next
line exactly if one of its matches has no end, and that one is the match that reaches the end of the text
(`Rule.staysOpenAt_iff`). Every proper match of the opening pattern lies in a match of the rule
(`Rule.occurrences_cover`).
-/
import Linewise.Proofs.Regex.Search
import Linewise.Rule.Occurrence

namespace Linewise

open Regex

/-! ## Ranges -/

namespace Occurrences

variable {opening closing : Expr} {c d : Cursor} {hit : Hit} {fuel : Nat}

/-- the hit is a range that begins with a match `first` of the opening pattern -/
structure IsRange (opening closing : Expr) (first hit : Hit) : Prop where
  opens : opening.matchAt? hit.start = some first
  nonempty : first.isEmpty = false
  closes : hit.stop = ((closing.find? first.stop).map (·.stop)).getD first.stop.toEnd

theorem IsRange.proper {first : Hit} (h : IsRange opening closing first hit) :
    first.stop ∈ hit.start.places ∧ hit.stop ∈ first.stop.places ∧ hit.Proper := by
  have hstart := (Expr.matchAt?_some h.opens).1
  have hfirst := Expr.matchAt?_proper h.opens h.nonempty
  have hstop : hit.stop ∈ first.stop.places := by
    rw [h.closes]
    cases hlast : closing.find? first.stop with
    | none => exact first.stop.toEnd_mem
    | some last =>
      obtain ⟨hlastmem, -, hlaststop⟩ := Expr.find?_some hlast
      exact Cursor.places_trans hlastmem hlaststop
  have hmem := hstart ▸ hfirst.stop_mem
  refine ⟨hmem, hstop, Cursor.places_trans hmem hstop, ?_⟩
  calc hit.start.offset < first.stop.offset := hstart ▸ hfirst.lt
    _ ≤ hit.stop.offset := Cursor.offset_le hstop

/-- the ranges from a place on: none, one that has no end, or one that has, and then those behind it -/
theorem ranges_cases (opening closing : Expr) (fuel : Nat) (c : Cursor) :
    (opening.findNonempty? c = .none ∧ ranges opening closing (fuel + 1) c = ([], false)) ∨
      ∃ first hit, opening.findNonempty? c = some first ∧ hit.start = first.start ∧ hit.start ∈ c.places ∧
        IsRange opening closing first hit ∧
        ((closing.find? first.stop = .none ∧ ranges opening closing (fuel + 1) c = ([hit], true)) ∨
          (closing.find? first.stop ≠ .none ∧ ranges opening closing (fuel + 1) c =
            (hit :: (ranges opening closing fuel hit.stop).1, (ranges opening closing fuel hit.stop).2))) := by
  cases hfirst : opening.findNonempty? c with
  | none => exact Or.inl ⟨rfl, by simp only [ranges, hfirst]⟩
  | some first =>
    obtain ⟨hstart, hopens, hne⟩ := Expr.findNonempty?_some hfirst
    refine Or.inr ?_
    cases hlast : closing.find? first.stop with
    | none =>
      refine ⟨first, ⟨first.start, first.stop.toEnd⟩, rfl, rfl, hstart, ⟨hopens, hne, ?_⟩, Or.inl ⟨hlast, ?_⟩⟩
      · rw [hlast]
        rfl
      · simp only [ranges, hfirst, hlast]
    | some last =>
      refine ⟨first, ⟨first.start, last.stop⟩, rfl, rfl, hstart, ⟨hopens, hne, ?_⟩, Or.inr ⟨by simp [hlast], ?_⟩⟩
      · rw [hlast]
        rfl
      · simp only [ranges, hfirst, hlast]

/-- each range listed is the one that begins at its place -/
theorem ranges_isRange (h : hit ∈ (ranges opening closing fuel c).1) :
    hit.start ∈ c.places ∧ ∃ first, IsRange opening closing first hit := by
  induction fuel generalizing c with
  | zero => cases h
  | succ fuel ih =>
    rcases ranges_cases opening closing fuel c with
      ⟨-, hnone⟩ | ⟨first, range, -, -, hstart, hrange, ⟨-, hopen⟩ | ⟨-, hclosed⟩⟩
    · rw [hnone] at h
      cases h
    · rw [hopen, List.mem_singleton] at h
      rw [h]
      exact ⟨hstart, first, hrange⟩
    · rw [hclosed, List.mem_cons] at h
      rcases h with rfl | h
      · exact ⟨hstart, first, hrange⟩
      · obtain ⟨hlater, hfound⟩ := ih h
        exact ⟨Cursor.places_trans hstart (Cursor.places_trans hrange.proper.2.2.stop_mem hlater), hfound⟩

/-- a range without end -/
def Unclosed (opening closing : Expr) (hit : Hit) : Prop :=
  ∃ first, IsRange opening closing first hit ∧ closing.find? first.stop = .none

theorem Unclosed.of_isRange {first : Hit} (h : Unclosed opening closing hit) (hrange : IsRange opening closing first hit) :
    closing.find? first.stop = .none := by
  obtain ⟨other, hother, hnone⟩ := h
  have hsame : some other = some first := hother.opens.symm.trans hrange.opens
  cases hsame
  exact hnone

/-- the last range has no end exactly if one of the ranges has none -/
theorem ranges_unclosed_iff : (ranges opening closing fuel c).2 = true ↔
    ∃ hit ∈ (ranges opening closing fuel c).1, Unclosed opening closing hit := by
  induction fuel generalizing c with
  | zero => simp [ranges]
  | succ fuel ih =>
    rcases ranges_cases opening closing fuel c with
      ⟨-, hnone⟩ | ⟨first, range, -, -, -, hrange, ⟨hlast, hopen⟩ | ⟨hlast, hclosed⟩⟩
    · simp [hnone]
    · rw [hopen]
      exact ⟨fun _ => ⟨range, List.mem_singleton_self _, first, hrange, hlast⟩, fun _ => rfl⟩
    · simp only [hclosed, List.exists_mem_cons_iff, ih]
      exact ⟨Or.inr, fun h => h.resolve_left fun hrange' => hlast (hrange'.of_isRange hrange)⟩

/-- if one of the ranges has no end, it is the only one to reach the end of the text -/
theorem unclosed_of_stop (hunclosed : (ranges opening closing fuel c).2 = true)
    (h : hit ∈ (ranges opening closing fuel c).1) (hstop : hit.stop.offset = c.offset + Text.width c.rest) :
    Unclosed opening closing hit := by
  induction fuel generalizing c with
  | zero => cases h
  | succ fuel ih =>
    rcases ranges_cases opening closing fuel c with
      ⟨-, hnone⟩ | ⟨first, range, -, -, hstart, hrange, ⟨hlast, hopen⟩ | ⟨-, hclosed⟩⟩
    · rw [hnone] at h
      cases h
    · rw [hopen, List.mem_singleton] at h
      rw [h]
      exact ⟨first, hrange, hlast⟩
    · rw [hclosed] at h hunclosed
      have hmem : range.stop ∈ c.places := Cursor.places_trans hstart hrange.proper.2.2.stop_mem
      rcases List.mem_cons.1 h with rfl | h
      · -- the range without end begins behind this one, before the end of the text
        obtain ⟨other, hother, -⟩ := ranges_unclosed_iff.1 hunclosed
        obtain ⟨hafter, _, hfound⟩ := ranges_isRange hother
        obtain ⟨-, -, hproper⟩ := hfound.proper
        have hbehind := Cursor.offset_le hafter
        have hbefore := hproper.lt
        have hend := Cursor.offset_add_width (Cursor.places_trans hmem (Cursor.places_trans hafter hproper.stop_mem))
        omega
      · exact ih hunclosed h (by rw [hstop, Cursor.offset_add_width hmem])

/-- a proper match of the opening pattern lies in one of the ranges -/
theorem ranges_cover {first : Hit} (hfuel : c.rest.length < fuel) (hd : d ∈ c.places)
    (hopens : opening.matchAt? d = some first) (hne : first.isEmpty = false) :
    ∃ hit ∈ (ranges opening closing fuel c).1, hit.Covers d := by
  induction fuel generalizing c with
  | zero => omega
  | succ fuel ih =>
    obtain ⟨found, hfound, hle⟩ := Expr.findNonempty?_le hd hopens hne
    rcases ranges_cases opening closing fuel c with
      ⟨hnone, -⟩ | ⟨other, range, hother, hsame, hstart, hrange, hcases⟩
    · rw [hfound] at hnone
      cases hnone
    · rw [hfound] at hother
      cases hother
      obtain ⟨-, -, hproper⟩ := hrange.proper
      rcases Hit.covers_or_after hstart hproper.stop_mem hd (by rw [hsame]; exact hle) with ⟨-, hcovers⟩ | hafter
      · rcases hcases with ⟨-, hopen⟩ | ⟨-, hclosed⟩
        · exact ⟨range, by rw [hopen]; exact List.mem_singleton_self _, hcovers⟩
        · exact ⟨range, by rw [hclosed]; exact List.mem_cons_self, hcovers⟩
      · rcases hcases with ⟨hlast, hopen⟩ | ⟨-, hclosed⟩
        · -- behind a range without end there is no text left
          rw [hrange.closes, hlast, Option.map_none, Option.getD_none, Cursor.places_of_nil rfl,
            List.mem_singleton] at hafter
          exact absurd (by rw [hafter]; rfl) (Expr.matchAt?_rest hopens hne)
        · have hshorter := Cursor.length_lt_of_offset_lt hproper.stop_mem hproper.lt
          have hlength := Cursor.length_le hstart
          obtain ⟨hit, hhit, hcovers⟩ := ih (by omega) hafter
          exact ⟨hit, by rw [hclosed]; exact List.mem_cons_of_mem _ hhit, hcovers⟩

end Occurrences

/-! ## Rules -/

namespace Rule

variable {rule : Rule} {text : Text} {c : Cursor} {hit : Hit}

/-- the pattern with which a match of the rule begins, if it has a meaning -/
def opening? (rule : Rule) : Option Expr :=
  match rule.shape with
  | .keyword pattern => pattern.expr
  | .range opening _ => opening.expr

/-- the pattern with which a range ends, if it has a meaning -/
def closing? (rule : Rule) : Option Expr :=
  match rule.shape with
  | .keyword _ => none
  | .range _ closing => closing.expr

/-- whether a match of the opening pattern begins at the place and no match of the closing one follows it, so that the
range goes on in the next line -/
def staysOpenAt (rule : Rule) (c : Cursor) : Bool :=
  rule.spansLines && (rule.opening?.bind (·.matchAt? c)).any fun first =>
    rule.closing?.any fun closing => (closing.find? first.stop).isNone

theorem exists_range_of_spansLines (h : rule.spansLines = true) :
    ∃ opening closing, rule.shape = .range opening closing := by
  cases hs : rule.shape with
  | keyword pattern => simp [spansLines, hs] at h
  | range opening closing => exact ⟨opening, closing, rfl⟩

theorem occurrences_keyword {pattern : Pattern} (h : rule.shape = .keyword pattern) (text : Text) :
    rule.occurrences text = ⟨pattern.hits text, false⟩ := by
  simp only [occurrences, h]

theorem occurrences_range {opening closing : Pattern} {o k : Expr} (h : rule.shape = .range opening closing)
    (ho : opening.expr = some o) (hk : closing.expr = some k) (text : Text) :
    rule.occurrences text = ⟨(Occurrences.ranges o k (text.length + 1) (.start text)).1,
      (Occurrences.ranges o k (text.length + 1) (.start text)).2 && rule.spansLines⟩ := by
  simp only [occurrences, h, ho, hk]

/-- a rule that matches somewhere is a keyword, or a range whose two patterns have a meaning -/
theorem occurrences_cases (h : hit ∈ (rule.occurrences text).hits) :
    (∃ pattern, rule.shape = .keyword pattern) ∨
      ∃ opening closing o k, rule.shape = .range opening closing ∧ opening.expr = some o ∧ closing.expr = some k := by
  cases hs : rule.shape with
  | keyword pattern => exact Or.inl ⟨pattern, rfl⟩
  | range opening closing =>
    cases ho : opening.expr with
    | none =>
      simp only [occurrences, hs, ho] at h
      cases h
    | some o =>
      cases hk : closing.expr with
      | none =>
        simp only [occurrences, hs, ho, hk] at h
        cases h
      | some k => exact Or.inr ⟨opening, closing, o, k, rfl, ho, hk⟩

theorem mem_pattern_hits {pattern : Pattern} (h : hit ∈ pattern.hits text) :
    ∃ e, pattern.expr = some e ∧ hit ∈ e.hits text ∧ hit.isEmpty = false := by
  cases he : pattern.expr with
  | none =>
    simp only [Pattern.hits, he] at h
    cases h
  | some e =>
    simp only [Pattern.hits, he, List.mem_filter, Bool.not_eq_true'] at h
    exact ⟨e, rfl, h⟩

/-- a match of a rule lies in the text and is not empty -/
theorem occurrences_proper (h : hit ∈ (rule.occurrences text).hits) :
    hit.start ∈ (Cursor.start text).places ∧ hit.Proper := by
  rcases occurrences_cases h with ⟨pattern, hs⟩ | ⟨opening, closing, o, k, hs, ho, hk⟩
  · rw [occurrences_keyword hs] at h
    obtain ⟨e, -, hmem, hne⟩ := mem_pattern_hits h
    obtain ⟨hstart, hmatch⟩ := Expr.hits_hit hmem
    exact ⟨hstart, Expr.matchAt?_proper hmatch hne⟩
  · rw [occurrences_range hs ho hk] at h
    obtain ⟨hstart, _, hrange⟩ := Occurrences.ranges_isRange h
    exact ⟨hstart, hrange.proper.2.2⟩

/-- **A match stays open exactly if the rule is told to go on and the match reaches the end of the text.** -/
theorem staysOpenAt_iff (h : hit ∈ (rule.occurrences text).hits) :
    rule.staysOpenAt hit.start = true ↔ (rule.occurrences text).isOpen = true ∧ hit.stop.offset = Text.width text := by
  rcases occurrences_cases h with ⟨pattern, hs⟩ | ⟨opening, closing, o, k, hs, ho, hk⟩
  · rw [occurrences_keyword hs]
    simp [staysOpenAt, spansLines, hs]
  · rw [occurrences_range hs ho hk] at h ⊢
    have hunclosed : rule.staysOpenAt hit.start = true ↔ rule.spansLines = true ∧ Occurrences.Unclosed o k hit := by
      obtain ⟨-, first, hrange⟩ := Occurrences.ranges_isRange h
      simp only [staysOpenAt, opening?, closing?, hs, ho, hk, Option.bind_some, hrange.opens, Option.any_some,
        Bool.and_eq_true, Option.isNone_iff_eq_none]
      exact and_congr_right fun _ => ⟨fun hnone => ⟨first, hrange, hnone⟩, fun hopen => hopen.of_isRange hrange⟩
    rw [hunclosed, Bool.and_eq_true]
    constructor
    · rintro ⟨hspan, hopen⟩
      refine ⟨⟨Occurrences.ranges_unclosed_iff.2 ⟨hit, h, hopen⟩, hspan⟩, ?_⟩
      obtain ⟨hstart, first, hrange⟩ := Occurrences.ranges_isRange h
      have hend : hit.stop = first.stop.toEnd := by
        rw [hrange.closes, hopen.of_isRange hrange]
        rfl
      have hwidth := Cursor.offset_add_width (Cursor.places_trans hstart hrange.proper.2.2.stop_mem)
      rw [hend] at hwidth ⊢
      simpa [Cursor.toEnd, Cursor.start] using hwidth
    · rintro ⟨⟨hopen, hspan⟩, hstop⟩
      exact ⟨hspan, Occurrences.unclosed_of_stop hopen h (by simpa [Cursor.start] using hstop)⟩

/-- **Every match of the opening pattern that is not empty begins inside a match of the rule.** -/
theorem occurrences_cover {opening : Expr} {first : Hit} (hv : rule.isValid = true) (ho : rule.opening? = some opening)
    (hc : c ∈ (Cursor.start text).places) (hmatch : opening.matchAt? c = some first) (hne : first.isEmpty = false) :
    ∃ hit ∈ (rule.occurrences text).hits, hit.Covers c := by
  cases hs : rule.shape with
  | keyword pattern =>
    simp only [opening?, hs] at ho
    obtain ⟨hit, hhit, hne', hcovers⟩ := Expr.hits_cover hc hmatch hne
    refine ⟨hit, ?_, hcovers⟩
    rw [occurrences_keyword hs]
    simp only [Pattern.hits, ho, List.mem_filter, hne', Bool.not_false, and_true]
    exact hhit
  | range opens closes =>
    simp only [opening?, hs] at ho
    simp only [isValid, patterns, hs, List.all_cons, List.all_nil, Bool.and_true, Bool.and_eq_true, Pattern.isValid] at hv
    obtain ⟨k, hk⟩ := Option.isSome_iff_exists.1 hv.2
    rw [occurrences_range hs ho hk]
    exact Occurrences.ranges_cover (Nat.lt_succ_self _) hc hmatch hne

/-- a range that was open when the text began ends at its first closing match, or stays open -/
theorem resumed_eq (hspan : rule.spansLines = true) (hv : rule.isValid = true) (text : Text) :
    ∃ closing, rule.closing? = some closing ∧ rule.resumed text =
      ⟨[⟨.start text, ((closing.find? (.start text)).map (·.stop)).getD (Cursor.start text).toEnd⟩],
        (closing.find? (.start text)).isNone⟩ := by
  obtain ⟨opens, closes, hs⟩ := exists_range_of_spansLines hspan
  simp only [isValid, patterns, hs, List.all_cons, List.all_nil, Bool.and_true, Bool.and_eq_true, Pattern.isValid] at hv
  obtain ⟨o, ho⟩ := Option.isSome_iff_exists.1 hv.1
  obtain ⟨k, hk⟩ := Option.isSome_iff_exists.1 hv.2
  refine ⟨k, by simp only [closing?, hs, hk], ?_⟩
  simp only [resumed, hs, ho, hk]
  cases k.find? (.start text) with
  | none => rw [hspan]; rfl
  | some last => rfl

end Rule

end Linewise
