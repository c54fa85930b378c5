/-
Which places of a line are covered.

Every rule is looked for in the whole line before overlaps are resolved. So a place where a pattern matches lies in a
match of the rule (or in the range that has the line to itself), but that match may have begun earlier, inside a
region of another rule, and be dropped with all that it covers. A place is covered exactly if one of the matches that
it lies in did not begin inside a region that ends before it.

Main statement: `covered_iff_not_hidden`, with `comment_behind_string_uncovered` as a comment that is not found.
-/
import Linewise.Proofs.Highlighting.Candidates

namespace Linewise.Grammar

open Regex

variable {g : Grammar} {text : Text} {incoming : RuleId} {rule : Rule} {r : Region} {place : Nat}

/-- the region begins inside one of the line's that has no parent and ends at the place or before it -/
def HiddenAt (g : Grammar) (text : Text) (incoming : RuleId) (place : Nat) (r : Region) : Prop :=
  ∃ k ∈ (g.analyze text incoming).regions, k.isNested = false ∧ k.covers r.position = true ∧ k.stop ≤ place

/-- a place where the opening pattern of a rule matches lies in a match of the rule, or in the range that stays open -/
theorem candidate_covers (hg : g.Built) (hrule : rule ∈ g.topLevel) (hvalid : rule.isValid = true) {opening : Expr}
    {first : Hit} (hopening : rule.opening? = some opening) {c : Cursor} (hc : Cursor.at? text place = some c)
    (hmatch : opening.matchAt? c = some first) (hne : first.isEmpty = false) :
    ∃ r ∈ g.candidates text incoming, r.isNested = false ∧ r.covers place = true ∧
      (r.rule = rule.id ∨ g.openUntil text incoming = none) := by
  obtain ⟨hmem, rfl⟩ := Cursor.at?_eq_some_iff.1 hc
  cases hopen : g.openUntil text incoming with
  | none =>
    have hinside : c.offset < Text.width text := by
      have hwidth := Cursor.offset_add_width hmem
      obtain ⟨x, rest, hrest⟩ := List.exists_cons_of_ne_nil (Expr.matchAt?_rest hmatch hne)
      rw [hrest, Text.width_cons] at hwidth
      have hsize := x.utf8Size_pos
      simp only [Cursor.start] at hwidth
      omega
    have hcarries : g.openUntil text incoming ≠ some 0 := by
      rw [hopen]
      simp
    obtain ⟨carried, hcarried⟩ := exists_carried hcarries
    obtain ⟨hr, hnested⟩ := ((analyze_of_open hg hopen).2 (.ofRule carried 0 (Text.width text))).2
      ⟨Nat.zero_lt_of_lt hinside, carried, hcarried, rfl⟩
    exact ⟨_, hr, hnested, Region.covers_iff.2 ⟨Nat.zero_le _, by simpa [Region.stop, Region.ofRule] using hinside⟩, Or.inr rfl⟩
  | some stop =>
    obtain ⟨hit, hhit, hbegin, hend⟩ := Rule.occurrences_cover hvalid hopening hmem hmatch hne
    obtain ⟨-, -, hiff⟩ := analyze_of_closed hg hopen
    obtain ⟨hr, hnested⟩ := (hiff (.ofHit rule hit)).2 (Or.inr ⟨rule, hrule, hit, hhit, rfl⟩)
    refine ⟨_, hr, hnested, Region.covers_iff.2 ⟨hbegin, ?_⟩, Or.inl rfl⟩
    rw [Region.stop_ofHit (Rule.occurrences_proper hhit).2]
    exact hend

/-- **A place is covered exactly if it lies in a match that is not hidden there.** -/
theorem covered_iff (hg : g.Built) (place : Nat) : (∃ r ∈ (g.analyze text incoming).regions, r.covers place = true) ↔
    ∃ r ∈ g.candidates text incoming, r.isNested = false ∧ r.covers place = true ∧ ¬ g.HiddenAt text incoming place r := by
  constructor
  · rintro ⟨r, hr, hcovers⟩
    rw [Region.covers_iff] at hcovers
    obtain ⟨k, hk, hk', hbegin, hend⟩ := analyze_inside hr
    refine ⟨k, mem_candidates_of_mem hk, hk', Region.covers_iff.2 ⟨by omega, by omega⟩, ?_⟩
    -- the region around `r` has no parent, and no other such region covers its beginning
    rintro ⟨other, hother, hother', hcovers', hstop⟩
    rw [Region.covers_iff] at hcovers'
    have hne : other ≠ k := by
      rintro rfl
      omega
    rcases analyze_disjoint hg hother hk hother' hk' hne with hbefore | hafter
    · omega
    · omega
  · rintro ⟨r, hr, hnested, hcovers, hseen⟩
    rw [Region.covers_iff] at hcovers
    obtain ⟨k, hk, hk', hbegin, hinside, -⟩ := analyze_cover hg hr hnested
    refine ⟨k, hk, Region.covers_iff.2 ⟨Nat.le_trans hbegin hcovers.1, ?_⟩⟩
    by_contra hstop
    exact hseen ⟨k, hk, hk', Region.covers_iff.2 ⟨hbegin, hinside⟩, Nat.le_of_not_lt hstop⟩

/-- **Where a pattern matches the line is covered, unless all matches there are hidden.** A place at which the opening
pattern of a rule without a parent has a match that is not empty lies in a match: of that rule, or of the range that
was open when the line began and stays so. It is covered by a region of the line exactly if one of the matches that it
lies in does not begin inside a region that ends at the place or before it. -/
theorem covered_iff_not_hidden (hg : g.Built) (hrule : rule ∈ g.topLevel) (hvalid : rule.isValid = true) {opening : Expr}
    (hopening : rule.opening? = some opening) {c : Cursor} (hc : Cursor.at? text place = some c) {first : Hit}
    (hfind : opening.find? c = some first) (hstart : first.start = c) (hne : first.isEmpty = false) (incoming : RuleId) :
    (∃ r ∈ g.candidates text incoming, r.isNested = false ∧ r.covers place = true ∧
        (r.rule = rule.id ∨ g.openUntil text incoming = none)) ∧
      ((∃ r ∈ (g.analyze text incoming).regions, r.covers place = true) ↔
        ∃ r ∈ g.candidates text incoming, r.isNested = false ∧ r.covers place = true ∧
          ¬ g.HiddenAt text incoming place r) := by
  obtain ⟨-, hmatch, -⟩ := Expr.find?_some hfind
  rw [hstart] at hmatch
  exact ⟨candidate_covers hg hrule hvalid hopening hc hmatch hne, covered_iff hg place⟩

/-- a string that holds the beginning of a comment, and a comment behind it -/
def commentBehindString : Text := "\"/*\" /* x".toList

/-- the comment behind the string is hidden: the match that it lies in begins inside the string -/
theorem covered_iff_not_hidden_string :
    (∃ r ∈ cLike.candidates commentBehindString .none, r.isNested = false ∧ r.covers 5 = true ∧
        (r.rule = ⟨1⟩ ∨ cLike.openUntil commentBehindString .none = none)) ∧
      ¬ ∃ r ∈ cLike.candidates commentBehindString .none, r.isNested = false ∧ r.covers 5 = true ∧
        ¬ cLike.HiddenAt commentBehindString .none 5 r := by
  have hrule : cLike.rules[0] ∈ cLike.topLevel := by decide
  have hopening : cLike.rules[0].opening? = some (.literal "/*".toList) := by decide
  have hc : Cursor.at? commentBehindString 5 = some ⟨5, some ' ', "/* x".toList⟩ := by decide
  have hfind : (Expr.literal "/*".toList).find? ⟨5, some ' ', "/* x".toList⟩ =
      some ⟨⟨5, some ' ', "/* x".toList⟩, ⟨7, some '*', " x".toList⟩⟩ := by decide
  obtain ⟨hmatch, hiff⟩ := covered_iff_not_hidden cLike_built hrule (by decide) hopening hc hfind rfl rfl .none
  refine ⟨hmatch, fun hseen => ?_⟩
  obtain ⟨r, hr, hcovers⟩ := hiff.2 hseen
  have huncovered : ∀ r ∈ (cLike.analyze commentBehindString .none).regions, r.covers 5 = false := by decide
  rw [huncovered r hr] at hcovers
  cases hcovers

/-- a comment begins behind the string, and nothing covers its beginning -/
theorem comment_behind_string_uncovered :
    (∃ rule ∈ cLike.topLevel, rule.isValid = true ∧ ∃ opening c first, rule.opening? = some opening ∧
        Cursor.at? commentBehindString 5 = some c ∧ opening.find? c = some first ∧ first.start = c ∧ first.isEmpty = false) ∧
      ∀ r ∈ (cLike.analyze commentBehindString .none).regions, r.covers 5 = false := by
  refine ⟨⟨cLike.rules[0], by decide, by decide, .literal "/*".toList, ⟨5, some ' ', "/* x".toList⟩,
    ⟨⟨5, some ' ', "/* x".toList⟩, ⟨7, some '*', " x".toList⟩⟩, ?_⟩, ?_⟩
  · decide
  · decide

end Linewise.Grammar
