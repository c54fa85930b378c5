/-
The regions of a line before overlaps are resolved.

`Grammar.candidates` are the matches that the analysis of a line comes upon: that of the range open when the line
begins, and, unless that one stays open, those of every rule without a parent in the whole line, each with what is
nested in it. The regions of the line are these with overlaps resolved (`analyze_regions`).

A candidate without a parent is a match of such a rule, and every such match is one (`mem_scanned_iff`,
`analyze_of_closed`); nested ones are told apart by their parents.
-/
import Linewise.Highlight
import Linewise.Proofs.Grammar.Built
import Linewise.Proofs.Region.Overlap
import Linewise.Proofs.Rule.Occurrences

namespace Linewise

open Regex

/-- the region of a match of a rule in the whole line -/
def Region.ofHit (rule : Rule) (hit : Hit) : Region :=
  .ofRule rule hit.start.offset (hit.stop.offset - hit.start.offset)

theorem Region.stop_ofHit {rule : Rule} {hit : Hit} (h : hit.Proper) : (ofHit rule hit).stop = hit.stop.offset :=
  Nat.add_sub_cancel' (Nat.le_of_lt h.lt)

namespace Grammar

variable {g : Grammar} {rule : Rule} {text : Text} {incoming : RuleId} {r : Region}

theorem carried?_some (h : g.carried? incoming = some rule) :
    rule ∈ g.topLevel ∧ rule.id = incoming ∧ rule.spansLines = true ∧ rule.isValid = true := by
  obtain ⟨hrule, hcarried⟩ := Option.filter_eq_some_iff.1 h
  simp only [Bool.and_eq_true] at hcarried
  obtain ⟨⟨hspan, htop⟩, hvalid⟩ := hcarried
  have hid : rule.id = incoming := by simpa using List.find?_some hrule
  exact ⟨mem_topLevel.2 ⟨List.mem_of_find?_eq_some hrule, RuleId.isNone_iff.1 htop⟩, hid, hspan, hvalid⟩

/-- the matches of the rules without a parent in a line, with those nested in them -/
def scanned (g : Grammar) (text : Text) : List Region :=
  g.topLevel.flatMap fun rule => g.lineRegions rule (rule.occurrences text)

/-- the regions of a line before overlaps are resolved -/
def candidates (g : Grammar) (text : Text) (incoming : RuleId) : List Region :=
  match g.carried? incoming with
  | none => g.scanned text
  | some rule =>
    let found := rule.resumed text
    if found.isOpen then g.lineRegions rule found else g.lineRegions rule found ++ g.scanned text

theorem scan_regions (g : Grammar) (text : Text) (incoming : RuleId) (before : List Region) :
    (g.scan text incoming before).regions = Region.resolve (before ++ g.scanned text) := by
  simp only [scan, RegionSet.removeOverlaps, RegionSet.ofList, Region.resolve, scanned, List.flatMap_map]

/-- **The regions of a line are its candidates with overlaps resolved.** -/
theorem analyze_regions (g : Grammar) (text : Text) (incoming : RuleId) :
    (g.analyze text incoming).regions = Region.resolve (g.candidates text incoming) := by
  rw [analyze, candidates]
  cases g.carried? incoming with
  | none => exact scan_regions g text incoming []
  | some rule =>
    simp only
    split_ifs
    · rfl
    · exact scan_regions g text incoming _

/-! ## Which rules regions are of -/

/-- every region is of a rule of the grammar; unless it is a match of the rule looked for, that rule has a parent -/
theorem mem_regions (hg : g.Built) {depth base : Nat} {hits : List Hit} (hrule : rule ∈ g.rules)
    (h : r ∈ g.regions depth rule base hits) :
    (∃ hit ∈ hits, hit.isEmpty = false ∧ r = .ofRule rule (base + hit.start.offset) (hit.stop.offset - hit.start.offset)) ∨
      ∃ child ∈ g.rules, child.parent ≠ .none ∧ r.rule = child.id ∧ r.parent = child.parent := by
  induction depth generalizing rule base hits with
  | zero =>
    rw [regions] at h
    obtain ⟨hit, hhit, h⟩ := List.mem_flatMap.1 h
    split_ifs at h with hempty
    · cases h
    · exact Or.inl ⟨hit, hhit, by simpa using hempty, List.mem_singleton.1 h⟩
  | succ depth ih =>
    rw [regions] at h
    obtain ⟨hit, hhit, h⟩ := List.mem_flatMap.1 h
    split_ifs at h with hempty
    · cases h
    · rcases List.mem_cons.1 h with rfl | h
      · exact Or.inl ⟨hit, hhit, by simpa using hempty, rfl⟩
      · obtain ⟨child, hchild, h⟩ := List.mem_flatMap.1 h
        obtain ⟨hmem, hparent⟩ := (hg.mem_children hrule).1 hchild
        have hnested : child.parent ≠ .none := by
          rw [hparent]
          exact hg.id_ne_none hrule
        rcases ih hmem h with ⟨inner, -, -, rfl⟩ | hdeeper
        · exact Or.inr ⟨child, hmem, hnested, rfl, rfl⟩
        · exact Or.inr hdeeper

/-- the match itself is among the regions -/
theorem ofRule_mem_regions (g : Grammar) (depth base : Nat) (rule : Rule) {hits : List Hit} {hit : Hit} (h : hit ∈ hits)
    (hne : hit.isEmpty = false) :
    Region.ofRule rule (base + hit.start.offset) (hit.stop.offset - hit.start.offset) ∈ g.regions depth rule base hits := by
  rw [regions, List.mem_flatMap]
  refine ⟨hit, h, ?_⟩
  rw [if_neg (by simp [hne])]
  exact List.mem_cons_self

/-- of the regions of a rule without a parent those without one are its matches -/
theorem mem_lineRegions_iff (hg : g.Built) (hrule : rule ∈ g.topLevel) {found : Occurrences} :
    (r ∈ g.lineRegions rule found ∧ r.isNested = false) ↔ ∃ hit ∈ found.hits, hit.isEmpty = false ∧ r = .ofHit rule hit := by
  obtain ⟨hmem, htop⟩ := mem_topLevel.1 hrule
  constructor
  · rintro ⟨h, hnested⟩
    rcases mem_regions hg hmem h with ⟨hit, hhit, hne, rfl⟩ | ⟨child, -, hparent, -, hr⟩
    · exact ⟨hit, hhit, hne, by rw [Nat.zero_add]; rfl⟩
    · have hnone : r.parent = .none := RuleId.isNone_iff.1 (by simpa [Region.isNested] using hnested)
      exact absurd (hr.symm.trans hnone) hparent
  · rintro ⟨hit, hhit, hne, rfl⟩
    refine ⟨?_, ?_⟩
    · have hregion := g.ofRule_mem_regions g.rules.length 0 rule hhit hne
      rwa [Nat.zero_add] at hregion
    · simp [Region.isNested, Region.ofHit, Region.ofRule, RuleId.isNone_iff.2 htop]

theorem mem_lineRegions_rule (hg : g.Built) (hrule : rule ∈ g.rules) {found : Occurrences}
    (h : r ∈ g.lineRegions rule found) : ∃ owner ∈ g.rules, r.rule = owner.id ∧ r.parent = owner.parent := by
  rcases mem_regions hg hrule h with ⟨hit, -, -, rfl⟩ | ⟨child, hchild, -, hid, hparent⟩
  · exact ⟨rule, hrule, rfl, rfl⟩
  · exact ⟨child, hchild, hid, hparent⟩

theorem mem_candidates_rule (hg : g.Built) (h : r ∈ g.candidates text incoming) :
    ∃ owner ∈ g.rules, r.rule = owner.id ∧ r.parent = owner.parent := by
  have hscanned : ∀ r ∈ g.scanned text, ∃ owner ∈ g.rules, r.rule = owner.id ∧ r.parent = owner.parent := by
    intro r hr
    obtain ⟨rule, hrule, hr⟩ := List.mem_flatMap.1 hr
    exact mem_lineRegions_rule hg (mem_topLevel.1 hrule).1 hr
  rw [candidates] at h
  cases hcarried : g.carried? incoming with
  | none =>
    rw [hcarried] at h
    exact hscanned r h
  | some rule =>
    have hrule := (mem_topLevel.1 (carried?_some hcarried).1).1
    simp only [hcarried] at h
    split_ifs at h
    · exact mem_lineRegions_rule hg hrule h
    · rcases List.mem_append.1 h with h | h
      · exact mem_lineRegions_rule hg hrule h
      · exact hscanned r h

theorem candidates_owned (hg : g.Built) (text : Text) (incoming : RuleId) : Region.Owned (g.candidates text incoming) := by
  intro r hr
  obtain ⟨owner, howner, hid, -⟩ := mem_candidates_rule hg hr
  rw [hid]
  exact hg.id_ne_none howner

/-- a region of a rule without a parent has none -/
theorem isNested_of_topLevel (hg : g.Built) (h : r ∈ g.candidates text incoming) (hrule : rule ∈ g.topLevel)
    (hid : rule.id = r.rule) : r.isNested = false := by
  obtain ⟨owner, howner, hid', hparent⟩ := mem_candidates_rule hg h
  obtain ⟨hmem, htop⟩ := mem_topLevel.1 hrule
  have hsame := hg.eq_of_id howner hmem (hid'.symm.trans hid.symm)
  rw [hsame, htop] at hparent
  simp [Region.isNested, hparent, RuleId.isNone_iff.2 rfl]

/-! ## Candidates without a parent -/

theorem mem_scanned_iff (hg : g.Built) : (r ∈ g.scanned text ∧ r.isNested = false) ↔
    ∃ rule ∈ g.topLevel, ∃ hit ∈ (rule.occurrences text).hits, r = .ofHit rule hit := by
  constructor
  · rintro ⟨h, hnested⟩
    obtain ⟨rule, hrule, h⟩ := List.mem_flatMap.1 h
    obtain ⟨hit, hhit, -, rfl⟩ := (mem_lineRegions_iff hg hrule).1 ⟨h, hnested⟩
    exact ⟨rule, hrule, hit, hhit, rfl⟩
  · rintro ⟨rule, hrule, hit, hhit, rfl⟩
    have hne : hit.isEmpty = false := by
      have hlt := (Rule.occurrences_proper hhit).2.lt
      simpa [Hit.isEmpty] using Nat.ne_of_lt hlt
    obtain ⟨hmem, hnested⟩ := (mem_lineRegions_iff hg hrule).2 ⟨hit, hhit, hne, rfl⟩
    exact ⟨List.mem_flatMap.2 ⟨rule, hrule, hmem⟩, hnested⟩

/-- where the range open when the line begins ends: at 0 if there is none, and nowhere if it stays open -/
def openUntil (g : Grammar) (text : Text) (incoming : RuleId) : Option Nat :=
  match g.carried? incoming with
  | none => some 0
  | some rule => (rule.closing?.bind (·.find? (.start text))).map (·.stop.offset)

theorem exists_carried (h : g.openUntil text incoming ≠ some 0) : ∃ rule, g.carried? incoming = some rule := by
  cases hcarried : g.carried? incoming with
  | none => exact absurd (by simp only [openUntil, hcarried]) h
  | some rule => exact ⟨rule, rfl⟩

/-- the match of a range that was open when the line began -/
theorem mem_resumed_iff (hg : g.Built) (hrule : rule ∈ g.topLevel) {stop : Cursor} {isOpen : Bool} :
    (r ∈ g.lineRegions rule ⟨[⟨.start text, stop⟩], isOpen⟩ ∧ r.isNested = false) ↔
      0 < stop.offset ∧ r = .ofRule rule 0 stop.offset := by
  rw [mem_lineRegions_iff hg hrule]
  simp only [List.mem_singleton, exists_eq_left, Region.ofHit, Cursor.start, Nat.sub_zero, Hit.isEmpty,
    beq_eq_false_iff_ne, Nat.pos_iff_ne_zero]
  exact and_congr_left' ne_comm

/-- a range that stays open has the line to itself -/
theorem analyze_of_open (hg : g.Built) (h : g.openUntil text incoming = none) :
    (g.analyze text incoming).outgoing = incoming ∧
      ∀ r, (r ∈ g.candidates text incoming ∧ r.isNested = false) ↔
        0 < Text.width text ∧ ∃ rule, g.carried? incoming = some rule ∧ r = .ofRule rule 0 (Text.width text) := by
  rw [openUntil] at h
  cases hcarried : g.carried? incoming with
  | none => simp [hcarried] at h
  | some rule =>
    obtain ⟨htop, -, hspan, hvalid⟩ := carried?_some hcarried
    obtain ⟨closing, hclosing, hresumed⟩ := Rule.resumed_eq hspan hvalid text
    have hnone : closing.find? (.start text) = none := by simpa [hcarried, hclosing] using h
    rw [hnone] at hresumed
    refine ⟨by simp [analyze, hcarried, hresumed], fun r => ?_⟩
    simp only [candidates, hcarried, hresumed, Option.isNone_none, if_true]
    have hwidth : (Cursor.start text).toEnd.offset = Text.width text := Nat.zero_add _
    rw [Option.map_none, Option.getD_none, mem_resumed_iff hg htop, hwidth]
    simp

/-- a range that ends leaves the line to be looked at again from its beginning -/
theorem analyze_of_closed (hg : g.Built) {c : Nat} (h : g.openUntil text incoming = some c) :
    ∃ before, g.analyze text incoming = g.scan text incoming before ∧
      ∀ r, (r ∈ g.candidates text incoming ∧ r.isNested = false) ↔
        (0 < c ∧ ∃ rule, g.carried? incoming = some rule ∧ r = .ofRule rule 0 c) ∨
          ∃ rule ∈ g.topLevel, ∃ hit ∈ (rule.occurrences text).hits, r = .ofHit rule hit := by
  rw [openUntil] at h
  cases hcarried : g.carried? incoming with
  | none =>
    refine ⟨[], by simp only [analyze, hcarried], fun r => ?_⟩
    simp only [candidates, hcarried]
    rw [mem_scanned_iff hg]
    simp
  | some rule =>
    obtain ⟨htop, -, hspan, hvalid⟩ := carried?_some hcarried
    obtain ⟨closing, hclosing, hresumed⟩ := Rule.resumed_eq hspan hvalid text
    simp only [hcarried, hclosing, Option.bind_some] at h
    obtain ⟨last, hlast, rfl⟩ := Option.map_eq_some_iff.1 h
    rw [hlast] at hresumed
    refine ⟨g.lineRegions rule (rule.resumed text), by simp [analyze, hcarried, hresumed], fun r => ?_⟩
    simp only [candidates, hcarried, hresumed, Option.isNone_some, Bool.false_eq_true, if_false, List.mem_append,
      or_and_right]
    rw [Option.map_some, Option.getD_some, mem_resumed_iff hg htop, mem_scanned_iff hg]
    simp

theorem openUntil_le {c : Nat} (h : g.openUntil text incoming = some c) : c ≤ Text.width text := by
  rw [openUntil] at h
  cases hcarried : g.carried? incoming with
  | none =>
    simp only [hcarried, Option.some.injEq] at h
    omega
  | some rule =>
    simp only [hcarried] at h
    obtain ⟨last, hlast, rfl⟩ := Option.map_eq_some_iff.1 h
    obtain ⟨closing, -, hfind⟩ := Option.bind_eq_some_iff.1 hlast
    obtain ⟨hstart, -, hstop⟩ := Expr.find?_some hfind
    have hwidth := Cursor.offset_add_width (Cursor.places_trans hstart hstop)
    simp only [Cursor.start] at hwidth
    omega

/-- a candidate without a parent lies in the line and is not empty -/
theorem candidates_bounds (hg : g.Built) (h : r ∈ g.candidates text incoming) (hnested : r.isNested = false) :
    0 < r.length ∧ r.stop ≤ Text.width text := by
  cases hopen : g.openUntil text incoming with
  | none =>
    obtain ⟨hpositive, rule, -, rfl⟩ := ((analyze_of_open hg hopen).2 r).1 ⟨h, hnested⟩
    exact ⟨hpositive, Nat.le_of_eq (Nat.zero_add _)⟩
  | some c =>
    obtain ⟨-, -, hiff⟩ := analyze_of_closed hg hopen
    rcases (hiff r).1 ⟨h, hnested⟩ with ⟨hpositive, rule, -, rfl⟩ | ⟨rule, -, hit, hhit, rfl⟩
    · exact ⟨hpositive, Nat.le_trans (Nat.le_of_eq (Nat.zero_add c)) (openUntil_le hopen)⟩
    · obtain ⟨hstart, hproper⟩ := Rule.occurrences_proper hhit
      have hlt := hproper.lt
      have hwidth := Cursor.offset_add_width (Cursor.places_trans hstart hproper.stop_mem)
      simp only [Cursor.start] at hwidth
      simp only [Region.ofHit, Region.ofRule, Region.stop]
      omega

/-- of two regions of a line without a parent one ends before the other begins -/
theorem analyze_disjoint (hg : g.Built) {a b : Region} (ha : a ∈ (g.analyze text incoming).regions)
    (hb : b ∈ (g.analyze text incoming).regions) (ha' : a.isNested = false) (hb' : b.isNested = false) (hne : a ≠ b) :
    a.stop ≤ b.position ∨ b.stop ≤ a.position := by
  rw [analyze_regions] at ha hb
  exact Region.resolve_disjoint (candidates_owned hg text incoming) ha hb ha' hb' hne

theorem mem_candidates_of_mem (h : r ∈ (g.analyze text incoming).regions) : r ∈ g.candidates text incoming := by
  rw [analyze_regions] at h
  exact Region.mem_of_mem_resolve h

/-- a candidate without a parent begins inside a region of the line without one, itself or one that comes before it -/
theorem analyze_cover (hg : g.Built) (h : r ∈ g.candidates text incoming) (hnested : r.isNested = false) :
    ∃ k ∈ (g.analyze text incoming).regions, k.isNested = false ∧ k.position ≤ r.position ∧ r.position < k.stop ∧
      (k.position = r.position → r.stop ≤ k.stop) := by
  rw [analyze_regions]
  exact Region.resolve_cover (candidates_owned hg text incoming) (fun s hs hs' => (candidates_bounds hg hs hs').1) h hnested

/-- a region of a line lies inside one that has no parent -/
theorem analyze_inside (h : r ∈ (g.analyze text incoming).regions) :
    ∃ k ∈ (g.analyze text incoming).regions, k.isNested = false ∧ k.position ≤ r.position ∧ r.stop ≤ k.stop := by
  rw [analyze_regions] at h ⊢
  exact Region.resolve_inside h

/-- comments and texts between quotes, both of which may go on over lines -/
def cLike : Grammar where
  name := "c"
  rules := [.range ⟨1⟩ "comment" "/\\*".toList "\\*/".toList (.union .span .comment) 1,
    .range ⟨2⟩ "string" "\"".toList "\"".toList .span 2]
  delimiters := []
  indents := []

theorem cLike_built : cLike.Built := ⟨cLike.rules, rfl⟩

end Grammar

end Linewise
