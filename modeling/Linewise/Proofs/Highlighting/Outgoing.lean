/-
The range that a line leaves open.

A line leaves open the range that was open when it began, if that does not end; otherwise the first of its regions
that comes from a range begun behind that end and without an end of its own (`openAtEnd`). The analysis judges this by
less: it looks for the first region that reaches the end of the line and whose rule, looked for from the beginning of
the line, is left open (`seemsOpen`). For regions behind the end of the range that was open this is the same
(`seemsOpen_iff_leavesOpen`). A region that begins before that end begins with the line, and then covers all of it.

Main statement: `outgoing_eq_iff`, with `quoted_end_handed_on` as a line with which a range ends that is handed on all
the same.
-/
import Linewise.Proofs.Highlighting.Candidates

namespace Linewise.Grammar

open Regex

variable {g : Grammar} {text : Text} {incoming : RuleId} {r : Region}

/-- whether the region comes from a range that begins at `c` or behind it and has no end -/
def leavesOpen (g : Grammar) (text : Text) (c : Nat) (r : Region) : Bool :=
  decide (c ≤ r.position) &&
    g.topLevel.any fun rule => rule.id == r.rule && (Cursor.at? text r.position).any rule.staysOpenAt

/-- the range that is open when the line ends -/
def openAtEnd (g : Grammar) (text : Text) (incoming : RuleId) : RuleId :=
  match g.openUntil text incoming with
  | none => incoming
  | some c => (((g.analyze text incoming).regions.find? (g.leavesOpen text c)).map (·.rule)).getD .none

/-- the rule is left open if looked for from the beginning of the line, whatever is open there -/
def IsLeftOpen (g : Grammar) (text : Text) (id : RuleId) : Prop :=
  ∃ rule ∈ g.topLevel, rule.id = id ∧ (rule.occurrences text).isOpen = true

/-- a range was open when the line began and ended, and a region that begins before its end covers the whole line, of
a rule that is left open if looked for from the beginning of the line -/
def FalselyOpen (g : Grammar) (text : Text) (incoming : RuleId) : Prop :=
  ∃ c, g.openUntil text incoming = some c ∧ 0 < c ∧ ∃ r ∈ (g.analyze text incoming).regions,
    r.position = 0 ∧ r.stop = Text.width text ∧ g.IsLeftOpen text r.rule

/-! ## How the analysis judges -/

/-- the rules that are left open if looked for from the beginning of the line -/
def unclosed (g : Grammar) (text : Text) : RuleMask :=
  (g.topLevel.filter fun rule => (rule.occurrences text).isOpen).foldl (fun mask rule => mask.insert rule.id) .empty

/-- what the analysis takes for the region of a range that has no end -/
def seemsOpen (g : Grammar) (text : Text) (r : Region) : Bool :=
  (g.unclosed text).contains r.rule && r.stop == Text.width text

theorem scan_outgoing (g : Grammar) (text : Text) (incoming : RuleId) (before : List Region) :
    (g.scan text incoming before).outgoing =
      (((g.scan text incoming before).regions.find? (g.seemsOpen text)).map (·.rule)).getD .none := by
  simp only [scan, List.filter_map, List.foldl_map]
  rfl

theorem seemsOpen_iff (hg : g.Built) (h : r ∈ g.candidates text incoming) :
    g.seemsOpen text r = true ↔ g.IsLeftOpen text r.rule ∧ r.stop = Text.width text := by
  obtain ⟨owner, howner, hid, -⟩ := mem_candidates_rule hg h
  have hsingle : r.rule.isSingle = true := hid ▸ hg.single howner
  have hids : ∀ id ∈ (g.topLevel.filter fun rule => (rule.occurrences text).isOpen).map (·.id), id.isSingle = true := by
    intro id hmem
    obtain ⟨rule, hrule, rfl⟩ := List.mem_map.1 hmem
    exact hg.single (mem_topLevel.1 (List.mem_filter.1 hrule).1).1
  have hmask : g.unclosed text =
      ((g.topLevel.filter fun rule => (rule.occurrences text).isOpen).map (·.id)).foldl .insert .empty := by
    rw [List.foldl_map]
    rfl
  rw [seemsOpen, Bool.and_eq_true, beq_iff_eq, hmask, RuleMask.contains_insertAll _ hsingle hids, RuleMask.contains_empty]
  refine and_congr_left fun _ => ?_
  simp only [Bool.false_eq_true, false_or, List.mem_map, List.mem_filter]
  constructor
  · rintro ⟨rule, ⟨hrule, hopen⟩, hsame⟩
    exact ⟨rule, hrule, hsame, hopen⟩
  · rintro ⟨rule, hrule, hsame, hopen⟩
    exact ⟨rule, ⟨hrule, hopen⟩, hsame⟩

/-- a region behind the end of the range that was open is a match of its rule in the line -/
theorem hit_of_region (hg : g.Built) {c : Nat} (hc : g.openUntil text incoming = some c) (h : r ∈ g.candidates text incoming)
    {rule : Rule} (hrule : rule ∈ g.topLevel) (hid : rule.id = r.rule) (hposition : c ≤ r.position) :
    ∃ hit ∈ (rule.occurrences text).hits, r = .ofHit rule hit := by
  obtain ⟨-, -, hiff⟩ := analyze_of_closed hg hc
  rcases (hiff r).1 ⟨h, isNested_of_topLevel hg h hrule hid⟩ with
    ⟨hpositive, other, -, rfl⟩ | ⟨other, hother, hit, hhit, rfl⟩
  · exact absurd hposition (Nat.not_le.2 hpositive)
  · have hsame := hg.eq_of_id (mem_topLevel.1 hrule).1 (mem_topLevel.1 hother).1 hid
    rw [hsame]
    exact ⟨hit, hhit, rfl⟩

/-- **Behind the end of the range that was open the analysis judges right.** -/
theorem seemsOpen_iff_leavesOpen (hg : g.Built) {c : Nat} (hc : g.openUntil text incoming = some c)
    (h : r ∈ g.candidates text incoming) (hposition : c ≤ r.position) :
    g.seemsOpen text r = true ↔ g.leavesOpen text c r = true := by
  rw [seemsOpen_iff hg h]
  simp only [leavesOpen, hposition, decide_true, Bool.true_and, List.any_eq_true, Bool.and_eq_true, beq_iff_eq]
  -- the place where the region begins is the place where a match of its rule begins
  have hplace : ∀ {rule : Rule} {hit : Hit}, hit ∈ (rule.occurrences text).hits →
      Cursor.at? text (Region.ofHit rule hit).position = some hit.start :=
    fun hhit => Cursor.at?_eq_some_iff.2 ⟨(Rule.occurrences_proper hhit).1, rfl⟩
  constructor
  · rintro ⟨⟨rule, hrule, hid, hopen⟩, hstop⟩
    obtain ⟨hit, hhit, rfl⟩ := hit_of_region hg hc h hrule hid hposition
    rw [Region.stop_ofHit (Rule.occurrences_proper hhit).2] at hstop
    refine ⟨rule, hrule, hid, ?_⟩
    rw [hplace hhit, Option.any_some]
    exact (Rule.staysOpenAt_iff hhit).2 ⟨hopen, hstop⟩
  · rintro ⟨rule, hrule, hid, hopen⟩
    obtain ⟨hit, hhit, rfl⟩ := hit_of_region hg hc h hrule hid hposition
    rw [hplace hhit, Option.any_some] at hopen
    obtain ⟨hopen, hstop⟩ := (Rule.staysOpenAt_iff hhit).1 hopen
    exact ⟨⟨rule, hrule, hid, hopen⟩, (Region.stop_ofHit (Rule.occurrences_proper hhit).2).trans hstop⟩

/-! ## The regions before the end of the range that was open -/

/-- a region of the line without a parent that begins before that end begins with the line -/
theorem position_eq_zero (hg : g.Built) {c : Nat} (hc : g.openUntil text incoming = some c)
    (h : r ∈ (g.analyze text incoming).regions) (hnested : r.isNested = false) (hposition : r.position < c) :
    r.position = 0 := by
  have hpositive : 0 < c := Nat.zero_lt_of_lt hposition
  obtain ⟨-, -, hiff⟩ := analyze_of_closed hg hc
  have hcarries : g.openUntil text incoming ≠ some 0 := by
    rw [hc]
    simpa using Nat.ne_of_gt hpositive
  obtain ⟨rule, hcarried⟩ := exists_carried hcarries
  obtain ⟨hmem, hmem'⟩ := (hiff (.ofRule rule 0 c)).2 (Or.inl ⟨hpositive, rule, hcarried, rfl⟩)
  -- the match of that range, or a longer one in its place, takes up all that is before the end
  obtain ⟨k, hk, hk', hbegin, -, hlonger⟩ := analyze_cover hg hmem hmem'
  have hzero : k.position = 0 := Nat.le_zero.1 hbegin
  have hstop : c ≤ k.stop := by
    have hcovers := hlonger hzero
    simpa [Region.ofRule, Region.stop] using hcovers
  by_cases hsame : r = k
  · rw [hsame, hzero]
  · have hlength := (candidates_bounds hg (mem_candidates_of_mem h) hnested).1
    rcases analyze_disjoint hg h hk hnested hk' hsame with hbefore | hafter
    · simp only [Region.stop] at hbefore
      omega
    · omega

theorem isNested_of_seemsOpen (hg : g.Built) (h : r ∈ g.candidates text incoming) (hseems : g.seemsOpen text r = true) :
    r.isNested = false := by
  obtain ⟨⟨rule, hrule, hid, -⟩, -⟩ := (seemsOpen_iff hg h).1 hseems
  exact isNested_of_topLevel hg h hrule hid

theorem isNested_of_leavesOpen (hg : g.Built) {c : Nat} (h : r ∈ g.candidates text incoming)
    (hleaves : g.leavesOpen text c r = true) : r.isNested = false := by
  simp only [leavesOpen, Bool.and_eq_true, List.any_eq_true, beq_iff_eq] at hleaves
  obtain ⟨-, rule, hrule, hid, -⟩ := hleaves
  exact isNested_of_topLevel hg h hrule hid

/-- a region that covers the whole line leaves no place for another one without a parent -/
theorem eq_of_whole (hg : g.Built) {s : Region} (hr : r ∈ (g.analyze text incoming).regions) (hr' : r.isNested = false)
    (hs : s ∈ (g.analyze text incoming).regions) (hs' : s.isNested = false) (hposition : r.position = 0)
    (hstop : r.stop = Text.width text) : s = r := by
  by_contra hne
  obtain ⟨hlength, hwithin⟩ := candidates_bounds hg (mem_candidates_of_mem hs) hs'
  rcases analyze_disjoint hg hs hr hs' hr' hne with hbefore | hafter
  · simp only [Region.stop] at hbefore
    omega
  · simp only [Region.stop] at hwithin hafter hstop
    omega

/-- in a line that is falsely open nothing is open at the end, and a range is handed on -/
theorem FalselyOpen.handed_on (hg : g.Built) (h : g.FalselyOpen text incoming) :
    g.openAtEnd text incoming = .none ∧ (g.analyze text incoming).outgoing ≠ .none := by
  obtain ⟨c, hc, hpositive, r, hr, hposition, hstop, hleft⟩ := h
  have hcand := mem_candidates_of_mem hr
  have hseems := (seemsOpen_iff hg hcand).2 ⟨hleft, hstop⟩
  have hr' := isNested_of_seemsOpen hg hcand hseems
  constructor
  · have hnone : (g.analyze text incoming).regions.find? (g.leavesOpen text c) = none := by
      rw [List.find?_eq_none]
      intro s hs hleaves
      have hsame := eq_of_whole hg hr hr' hs (isNested_of_leavesOpen hg (mem_candidates_of_mem hs) hleaves) hposition hstop
      rw [hsame] at hleaves
      simp only [leavesOpen, Bool.and_eq_true, decide_eq_true_eq] at hleaves
      omega
    simp only [openAtEnd, hc, hnone]
    rfl
  · obtain ⟨before, hscan, -⟩ := analyze_of_closed hg hc
    obtain ⟨s, hs⟩ : ∃ s, (g.analyze text incoming).regions.find? (g.seemsOpen text) = some s :=
      Option.isSome_iff_exists.1 (List.find?_isSome.2 ⟨r, hr, hseems⟩)
    rw [hscan, scan_outgoing, ← hscan, hs]
    exact candidates_owned hg text incoming s (mem_candidates_of_mem (List.mem_of_find?_eq_some hs))

/-- in any other line the analysis judges all regions right -/
theorem seemsOpen_eq_leavesOpen (hg : g.Built) (h : ¬ g.FalselyOpen text incoming) {c : Nat}
    (hc : g.openUntil text incoming = some c) (hr : r ∈ (g.analyze text incoming).regions) :
    g.seemsOpen text r = g.leavesOpen text c r := by
  have hcand := mem_candidates_of_mem hr
  rw [Bool.eq_iff_iff]
  by_cases hposition : c ≤ r.position
  · exact seemsOpen_iff_leavesOpen hg hc hcand hposition
  · constructor
    · intro hseems
      obtain ⟨hleft, hstop⟩ := (seemsOpen_iff hg hcand).1 hseems
      have hbegin := position_eq_zero hg hc hr (isNested_of_seemsOpen hg hcand hseems) (Nat.lt_of_not_le hposition)
      exact absurd ⟨c, hc, by omega, r, hr, hbegin, hstop, hleft⟩ h
    · intro hleaves
      simp [leavesOpen, hposition] at hleaves

/-- **The range that a line is told to leave open is the one that is open when it ends, unless the line is falsely
open.** In that case nothing is open, and a range is handed on. -/
theorem outgoing_eq_iff (hg : g.Built) (text : Text) (incoming : RuleId) :
    ((g.analyze text incoming).outgoing = g.openAtEnd text incoming ↔ ¬ g.FalselyOpen text incoming) ∧
      (g.FalselyOpen text incoming →
        g.openAtEnd text incoming = .none ∧ (g.analyze text incoming).outgoing ≠ .none) := by
  refine ⟨⟨fun hsame hwrong => ?_, fun hright => ?_⟩, fun hwrong => hwrong.handed_on hg⟩
  · obtain ⟨hnone, hsome⟩ := hwrong.handed_on hg
    exact hsome (hsame.trans hnone)
  · cases hc : g.openUntil text incoming with
    | none => rw [(analyze_of_open hg hc).1, openAtEnd, hc]
    | some c =>
      obtain ⟨before, hscan, -⟩ := analyze_of_closed hg hc
      have hfind : (g.analyze text incoming).regions.find? (g.seemsOpen text) =
          (g.analyze text incoming).regions.find? (g.leavesOpen text c) := by
        rw [← List.head?_filter, ← List.head?_filter]
        exact congrArg List.head? (List.filter_congr fun r hr => seemsOpen_eq_leavesOpen hg hright hc hr)
      rw [hscan, scan_outgoing, ← hscan, hfind, openAtEnd, hc]

/-- a text between quotes that ends with its line leaves that falsely open; a comment begun behind the end of another
one is rightly handed on -/
theorem outgoing_eq_iff_cLike :
    (cLike.FalselyOpen "x\"".toList ⟨2⟩ ∧
        (cLike.analyze "x\"".toList ⟨2⟩).outgoing ≠ cLike.openAtEnd "x\"".toList ⟨2⟩) ∧
      ¬ cLike.FalselyOpen "x */ /* y".toList ⟨1⟩ ∧ (cLike.analyze "x */ /* y".toList ⟨1⟩).outgoing = ⟨1⟩ := by
  have hfalse : cLike.FalselyOpen "x\"".toList ⟨2⟩ :=
    ⟨2, by decide, by decide, ⟨0, 2, ⟨2⟩, .none, .span, 2⟩, by decide, rfl, by decide, _, .tail _ (.head _), rfl, by decide⟩
  have hright : (cLike.analyze "x */ /* y".toList ⟨1⟩).outgoing = cLike.openAtEnd "x */ /* y".toList ⟨1⟩ := by decide
  refine ⟨⟨hfalse, fun hsame => ?_⟩, (outgoing_eq_iff cLike_built _ _).1.1 hright, by decide⟩
  exact (outgoing_eq_iff cLike_built _ _).1.1 hsame hfalse

/-- the text between quotes ends with the line, and is handed to the next one -/
theorem quoted_end_handed_on :
    cLike.openUntil "x\"".toList ⟨2⟩ = some 2 ∧ cLike.openAtEnd "x\"".toList ⟨2⟩ = .none ∧
      (cLike.analyze "x\"".toList ⟨2⟩).outgoing = ⟨2⟩ := by
  decide

end Linewise.Grammar
