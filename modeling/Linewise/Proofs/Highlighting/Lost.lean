/-
Which nested matches are lost.

A match of a rule is recorded inside a match of its parent (`Grammar.Records`). It is looked at after that one, so that it
finds it kept, unless the two have the same place, the parent's match is itself nested, and the child's rule has the
smaller id (`OutOfTurn`): then the child's match comes first, its parent is not yet there, and it is dropped. In its turn
it is dropped exactly if another region has taken its place before, which is neither the parent's match nor one that this
is nested in (`Competes`).

Main statement: `nested_lost_iff`, with `keyword_lost_out_of_turn` as a match that nothing competes with and that is lost
all the same.
-/
import Linewise.Proofs.Highlighting.Found
import Linewise.Proofs.Region.Forest

namespace Linewise

open Regex

namespace Region

variable {x y k : Region} {rs : List Region}

/-- the two have the same place, `y` has a parent, and the rule of `x` has the smaller id -/
def OutOfTurn (y x : Region) : Prop :=
  y.isNested = true ∧ x.position = y.position ∧ x.length = y.length ∧ x.rule.bits < y.rule.bits

/-- `k` is neither `y` nor a region that `y` is nested in -/
def Competes (rs : List Region) (y k : Region) : Prop := k ≠ y ∧ ¬ Encloses rs k y

theorem OutOfTurn.order_lt (h : OutOfTurn y x) (hx : x.isNested = true) : x.order y = .lt := by
  obtain ⟨hy, hposition, hlength, hid⟩ := h
  exact order_of_rule hposition (hx.trans hy.symm) hlength hid

/-- a region inside another one comes after it or is out of turn -/
theorem lt_or_outOfTurn (hinside : x.LiesIn y) (hx : x.isNested = true) (hne : x.rule ≠ y.rule) :
    y.order x = .lt ∨ OutOfTurn y x := by
  obtain ⟨hbegin, hend⟩ := hinside
  rcases Nat.lt_or_eq_of_le hbegin with hlt | hposition
  · exact Or.inl (order_of_position hlt)
  cases hy : y.isNested with
  | false => exact Or.inl (order_of_nested hposition hy hx)
  | true =>
    have hle : x.length ≤ y.length := by
      simp only [stop] at hend
      omega
    rcases Nat.lt_or_eq_of_le hle with hlt | hlength
    · exact Or.inl (order_of_length hposition (hy.trans hx.symm) hlt)
    · have hbits : x.rule.bits.toNat ≠ y.rule.bits.toNat := fun hbits => hne (congrArg RuleId.mk (UInt64.toNat_inj.1 hbits))
      rcases Nat.lt_or_gt_of_ne hbits with hlt | hgt
      · exact Or.inr ⟨hy, hposition.symm, hlength, hlt⟩
      · exact Or.inl (order_of_rule hposition (hy.trans hx.symm) hlength.symm hgt)

end Region

namespace Grammar

open Region

variable {g : Grammar} {line : Text} {incoming : RuleId} {k r x y : Region} {n m : Nat}

/-! ## Recorded matches -/

/-- the analysis of a line records `x` as a match inside the match `y` of the parent rule -/
def Records (g : Grammar) (line : Text) (incoming : RuleId) (y x : Region) : Prop :=
  ∃ rule base hit child inner, g.Found line incoming rule base hit ∧ child ∈ g.children rule.id ∧
    inner ∈ (child.occurrences hit.text).hits ∧ y = .ofMatch rule base hit ∧ x = .ofMatch child (base + hit.start.offset) inner

theorem Records.mem_candidates (hg : g.Built) (h : g.Records line incoming y x) : x ∈ g.candidates line incoming := by
  obtain ⟨rule, base, hit, child, inner, hfound, hchild, hinner, -, rfl⟩ := h
  exact (mem_candidates_iff_found hg).2 ⟨child, _, inner, hfound.nested hchild hinner, rfl⟩

theorem Records.parent (hg : g.Built) (h : g.Records line incoming y x) : x.parent = y.rule := by
  obtain ⟨rule, base, hit, child, inner, hfound, hchild, -, rfl, rfl⟩ := h
  exact ((hg.mem_children hfound.mem).1 hchild).2

theorem Records.liesIn (h : g.Records line incoming y x) : x.LiesIn y := by
  obtain ⟨rule, base, hit, child, inner, hfound, hchild, hinner, rfl, rfl⟩ := h
  refine ⟨Nat.le_add_right _ _, ?_⟩
  obtain ⟨hstart, hproper⟩ := Rule.occurrences_proper hinner
  have hwidth := (Hit.sliceAt hstart hproper.stop_mem).width_le
  rw [stop_ofMatch hproper.stop_mem, stop_ofMatch hfound.sliceAt.2.stop_mem]
  omega

theorem candidates_length (hg : g.Built) (h : r ∈ g.candidates line incoming) : 0 < r.length := by
  obtain ⟨rule, base, hit, hfound, rfl⟩ := (mem_candidates_iff_found hg).1 h
  exact Nat.sub_pos_of_lt hfound.sliceAt.2.lt

theorem candidates_covers (hg : g.Built) (h : r ∈ g.candidates line incoming) : r.covers r.position = true :=
  covers_iff.2 ⟨Nat.le_refl _, Nat.lt_add_of_pos_right (candidates_length hg h)⟩

/-! ## Levels of regions -/

/-- the region is of a rule of that level -/
def LevelOf (g : Grammar) (r : Region) (n : Nat) : Prop := ∃ rule, g.Level rule n ∧ r.rule = rule.id ∧ r.parent = rule.parent

theorem exists_levelOf (hg : g.Built) (h : r ∈ g.candidates line incoming) : ∃ n, g.LevelOf r n := by
  obtain ⟨rule, base, hit, hfound, rfl⟩ := (mem_candidates_iff_found hg).1 h
  obtain ⟨n, hlevel⟩ := hfound.level
  exact ⟨n, rule, hlevel, rfl, rfl⟩

theorem LevelOf.eq (hg : g.Built) (hk : g.LevelOf k n) (hr : g.LevelOf r m) (hsame : k.rule = r.rule) : n = m := by
  obtain ⟨rule, hlevel, hid, -⟩ := hk
  obtain ⟨other, hlevel', hid', -⟩ := hr
  have hrule := hg.eq_of_id hlevel.mem hlevel'.mem (by rw [← hid, hsame, hid'])
  exact hlevel.unique hg (hrule ▸ hlevel')

/-- a region is one level below those of its parent rule -/
theorem LevelOf.succ (hg : g.Built) (hk : g.LevelOf k n) (hr : g.LevelOf r m) (hparent : r.parent = k.rule) : m = n + 1 := by
  obtain ⟨outer, houter, hid, -⟩ := hk
  obtain ⟨rule, hrule, -, hparent'⟩ := hr
  have hchild : rule ∈ g.children outer.id :=
    (hg.mem_children houter.mem).2 ⟨hrule.mem, by rw [← hparent', hparent, hid]⟩
  exact hrule.unique hg (.child houter hchild)

/-- **Levels grow inwards**, so no region encloses one of a rule that is not further down. -/
theorem level_lt_of_encloses (hg : g.Built) (h : Encloses (g.analyze line incoming).regions k r) (hk : g.LevelOf k n)
    (hr : g.LevelOf r m) : n < m := by
  induction h generalizing m with
  | single hlink => rw [hk.succ hg hr hlink.2.2.parent]; exact Nat.lt_succ_self n
  | tail _ hlink ih =>
    obtain ⟨l, hl⟩ := exists_levelOf hg (mem_candidates_of_mem hlink.1)
    rw [hl.succ hg hr hlink.2.2.parent]
    exact Nat.lt_succ_of_lt (ih hl)

theorem rule_ne_of_encloses (hg : g.Built) (h : Encloses (g.analyze line incoming).regions k r) : k.rule ≠ r.rule := by
  obtain ⟨n, hk⟩ := exists_levelOf hg (mem_candidates_of_mem h.mem.1)
  obtain ⟨m, hr⟩ := exists_levelOf hg (mem_candidates_of_mem h.mem.2)
  intro hsame
  exact absurd (hk.eq hg hr hsame) (Nat.ne_of_lt (level_lt_of_encloses hg h hk hr))

/-! ## The regions of a line -/

theorem analyze_sorted (g : Grammar) (line : Text) (incoming : RuleId) : Sorted (g.analyze line incoming).regions := by
  rw [analyze_regions]
  exact (sort_sorted _).sublist (keep_sublist [] _)

theorem analyze_forest (hg : g.Built) (line : Text) (incoming : RuleId) : Forest (g.analyze line incoming).regions := by
  rw [analyze_regions]
  exact forest_keep (sort_sorted _) fun r hr => candidates_owned hg line incoming r (mem_of_mem_sort hr)

/-- sorting leaves out no candidate: two with the same place in the order are of one rule, and the same -/
theorem mem_sort_candidates (hg : g.Built) (h : r ∈ g.candidates line incoming) : r ∈ sort (g.candidates line incoming) := by
  obtain ⟨s, hs, horder⟩ := exists_mem_sort h
  obtain ⟨hposition, hlength, hid, hparent⟩ := eq_of_order horder
  obtain ⟨rule, base, hit, hfound, rfl⟩ := (mem_candidates_iff_found hg).1 h
  obtain ⟨other, base', hit', hfound', rfl⟩ := (mem_candidates_iff_found hg).1 (mem_of_mem_sort hs)
  have hsame : other = rule := hg.eq_of_id hfound'.mem hfound.mem hid
  subst hsame
  have heq : ofMatch other base' hit' = ofMatch other base hit := by
    simp only [ofMatch, ofRule, Region.mk.injEq, and_true] at hposition hlength ⊢
    exact ⟨hposition, hlength⟩
  exact heq ▸ hs

theorem mem_analyze_iff (hg : g.Built) (h : r ∈ g.candidates line incoming) : r ∈ (g.analyze line incoming).regions ↔
    r.fits (innermost? (before (g.analyze line incoming).regions r) r.position) = true := by
  rw [analyze_regions]
  exact mem_keep_iff (sort_sorted _) (mem_sort_candidates hg h)

/-! ## Matches that are lost -/

theorem mem_before {rs : List Region} : k ∈ before rs r ↔ k ∈ rs ∧ k.order r = .lt := by
  rw [before, List.mem_filter, beq_iff_eq]

/-- the matches recorded in a region cover a place of it -/
theorem Records.covers (hg : g.Built) (h : g.Records line incoming y x) : y.covers x.position = true := by
  have hlength := candidates_length hg (h.mem_candidates hg)
  obtain ⟨hbegin, hend⟩ := h.liesIn
  refine covers_iff.2 ⟨hbegin, ?_⟩
  simp only [stop] at hend ⊢
  omega

theorem Records.isNested (hg : g.Built) (hy : y ∈ (g.analyze line incoming).regions) (h : g.Records line incoming y x) :
    x.isNested = true := by
  have hne : x.parent ≠ .none := (h.parent hg) ▸ candidates_owned hg line incoming y (mem_candidates_of_mem hy)
  simpa [Region.isNested, ← RuleId.isNone_iff] using hne

theorem Records.rule_ne (hg : g.Built) (hy : y ∈ (g.analyze line incoming).regions) (h : g.Records line incoming y x) :
    x.rule ≠ y.rule := by
  obtain ⟨n, hn⟩ := exists_levelOf hg (mem_candidates_of_mem hy)
  obtain ⟨m, hm⟩ := exists_levelOf hg (h.mem_candidates hg)
  intro hsame
  have heq := hm.eq hg hn hsame
  have hsucc := hn.succ hg hm (h.parent hg)
  omega

/-- a match inside one that comes before it is kept exactly if nothing competes with it -/
theorem kept_iff_of_lt (hg : g.Built) (hy : y ∈ (g.analyze line incoming).regions) (hx : g.Records line incoming y x)
    (hlt : y.order x = .lt) : x ∈ (g.analyze line incoming).regions ↔
      ¬ ∃ k ∈ (g.analyze line incoming).regions, k.order x = .lt ∧ k.covers x.position = true ∧
        Competes (g.analyze line incoming).regions y k := by
  have hforest := analyze_forest hg line incoming
  have hsorted := analyze_sorted g line incoming
  have hcovers := hx.covers hg
  have hfirst : y ∈ before (g.analyze line incoming).regions x := mem_before.2 ⟨hy, hlt⟩
  obtain ⟨t, ht⟩ := Option.isSome_iff_exists.1 (innermost?_isSome_iff.2 ⟨y, hfirst, hcovers⟩)
  obtain ⟨htmem, htcovers⟩ := innermost?_some ht
  obtain ⟨htmem, htlt⟩ := mem_before.1 htmem
  rw [mem_analyze_iff hg (hx.mem_candidates hg), ht]
  rcases innermost?_rel (hsorted.filter _) ht hfirst hcovers with rfl | hyt
  · -- the innermost region there is the match itself, and all others that come before enclose it
    have hfits : x.fits (some y) = true := by simp [fits, hx.parent hg, hx.liesIn.2]
    refine iff_of_true hfits ?_
    rintro ⟨k, hk, hkx, hkcovers, hne, hnot⟩
    rcases innermost?_rel (hsorted.filter _) ht (mem_before.2 ⟨hk, hkx⟩) hkcovers with hsame | hky
    · exact hne hsame
    · exact hnot (hforest.encloses_of_covers hsorted hk hy hky hkcovers hcovers)
  · -- the innermost one is further down, so it is of another rule
    have hencloses := hforest.encloses_of_covers hsorted hy htmem hyt hcovers htcovers
    have hne : y.rule ≠ t.rule := rule_ne_of_encloses hg hencloses
    refine iff_of_false (by simp [fits, hx.parent hg, hne]) (not_not.2 ⟨t, htmem, htlt, htcovers, ?_, ?_⟩)
    · rintro rfl
      exact order_irrefl _ hyt
    · intro hty
      exact order_irrefl _ (Std.TransCmp.lt_trans hyt hty.order_lt)

/-- a match that is out of turn is lost, and nothing before it competes with it: what covers its place before it encloses
the match that it lies in -/
theorem lost_of_outOfTurn (hg : g.Built) (hy : y ∈ (g.analyze line incoming).regions) (hx : g.Records line incoming y x)
    (hturn : OutOfTurn y x) : x ∉ (g.analyze line incoming).regions ∧
      ∀ k ∈ (g.analyze line incoming).regions, k.order x = .lt → k.covers x.position = true →
        Encloses (g.analyze line incoming).regions k y := by
  have hforest := analyze_forest hg line incoming
  have hsorted := analyze_sorted g line incoming
  have hlt := hturn.order_lt (hx.isNested hg hy)
  have hcovers := hx.covers hg
  refine ⟨?_, ?_⟩
  · intro hkept
    -- the child would enclose its parent
    have hxy := hforest.encloses_of_covers hsorted hkept hy hlt (candidates_covers hg (hx.mem_candidates hg)) hcovers
    obtain ⟨n, hn⟩ := exists_levelOf hg (mem_candidates_of_mem hy)
    obtain ⟨m, hm⟩ := exists_levelOf hg (hx.mem_candidates hg)
    have hdown := hn.succ hg hm (hx.parent hg)
    have hup := level_lt_of_encloses hg hxy hm hn
    omega
  · intro k hk hkx hkcovers
    exact hforest.encloses_of_covers hsorted hk hy (Std.TransCmp.lt_trans hkx hlt) hkcovers hcovers

/-- what competes with a match out of turn is inside the match it lies in, and begins with it -/
theorem competes_iff_of_outOfTurn (hg : g.Built) (hy : y ∈ (g.analyze line incoming).regions)
    (hturn : OutOfTurn y x) :
    (∃ k ∈ (g.analyze line incoming).regions, k.covers x.position = true ∧ Competes (g.analyze line incoming).regions y k) ↔
      ∃ k ∈ (g.analyze line incoming).regions, k.position = y.position ∧ k.NestedIn y := by
  have hforest := analyze_forest hg line incoming
  have hsorted := analyze_sorted g line incoming
  have hcovers := candidates_covers hg (mem_candidates_of_mem hy)
  rw [hturn.2.1]
  constructor
  · rintro ⟨k, hk, hkcovers, hne, hnot⟩
    have hyk : y.order k = .lt := by
      rcases hsorted.lt_or_gt hk hy hne with hky | hyk
      · exact absurd (hforest.encloses_of_covers hsorted hk hy hky hkcovers hcovers) hnot
      · exact hyk
    -- the first region on the way from the match to `k` begins where both do
    obtain ⟨first, hlink, hrest⟩ := Relation.TransGen.head'_iff.1 (hforest.encloses_of_covers hsorted hy hk hyk hcovers hkcovers)
    have hle : first.position ≤ k.position := by
      rcases Relation.reflTransGen_iff_eq_or_transGen.1 hrest with rfl | hdown
      · exact Nat.le_refl _
      · exact (Encloses.liesIn hdown).1
    refine ⟨first, hlink.2.1, Nat.le_antisymm ?_ hlink.2.2.inside.1, hlink.2.2⟩
    calc first.position ≤ k.position := hle
      _ ≤ y.position := (covers_iff.1 hkcovers).1
  · rintro ⟨k, hk, hposition, hin⟩
    have hencloses : Encloses (g.analyze line incoming).regions y k := .single ⟨hy, hk, hin⟩
    refine ⟨k, hk, ?_, ?_, ?_⟩
    · rw [← hposition]
      exact candidates_covers hg (mem_candidates_of_mem hk)
    · rintro rfl
      exact order_irrefl _ hin.after
    · intro hback
      exact order_irrefl _ (Std.TransCmp.lt_trans hin.after hback.order_lt)

/-- **A nested match is lost to a competing one, or because it is out of turn.** Let `x` be recorded inside the match `y`
of its parent rule, and `y` be kept. Then `x` is lost exactly if it is out of turn, or a region that comes before it has
taken its place that is neither `y` nor one that `y` is nested in. Out of turn it is lost whatever the others are: its
place is taken by a competing region only if another match inside `y` begins there. -/
theorem nested_lost_iff (hg : g.Built) (hy : y ∈ (g.analyze line incoming).regions) (hx : g.Records line incoming y x) :
    (x ∉ (g.analyze line incoming).regions ↔ OutOfTurn y x ∨
        ∃ k ∈ (g.analyze line incoming).regions, k.order x = .lt ∧ k.covers x.position = true ∧
          Competes (g.analyze line incoming).regions y k) ∧
      (OutOfTurn y x →
        ((∃ k ∈ (g.analyze line incoming).regions, k.covers x.position = true ∧
            Competes (g.analyze line incoming).regions y k) ↔
          ∃ k ∈ (g.analyze line incoming).regions, k.position = y.position ∧ k.NestedIn y)) := by
  refine ⟨?_, competes_iff_of_outOfTurn hg hy⟩
  rcases lt_or_outOfTurn hx.liesIn (hx.isNested hg hy) (hx.rule_ne hg hy) with hlt | hturn
  · have hnot : ¬ OutOfTurn y x := by
      intro hturn
      exact order_irrefl _ (Std.TransCmp.lt_trans hlt (hturn.order_lt (hx.isNested hg hy)))
    rw [kept_iff_of_lt hg hy hx hlt, not_not]
    exact ⟨Or.inr, fun h => h.resolve_left hnot⟩
  · exact iff_of_true (lost_of_outOfTurn hg hy hx hturn).1 (Or.inl hturn)

def quotedRule : Rule := { Rule.range ⟨1⟩ "string" "\"".toList "\"".toList .none 1 with children := [⟨4⟩] }

def wordRule : Rule := { Rule.keyword ⟨4⟩ "word" "[a-z]+".toList .none 3 with parent := ⟨1⟩, children := [⟨2⟩] }

def ifRule : Rule := { Rule.keyword ⟨2⟩ "if" "if".toList .none 2 with parent := ⟨4⟩ }

/-- texts between quotes, the words in them, and a keyword inside words, which has the smaller id -/
def quotedWords : Grammar where
  name := "words"
  rules := [quotedRule, ifRule, wordRule]
  delimiters := []
  indents := []

theorem quotedWords_built : quotedWords.Built := ⟨quotedWords.rules, rfl⟩

/-- the keyword inside a word between quotes is recorded -/
theorem quotedWords_records {string word keyword : Hit} (hopen : quotedWords.openUntil line .none ≠ none)
    (hstring : string ∈ (quotedRule.occurrences line).hits)
    (hword : word ∈ (wordRule.occurrences string.text).hits)
    (hkeyword : keyword ∈ (ifRule.occurrences word.text).hits) :
    quotedWords.Records line .none (.ofMatch wordRule (0 + string.start.offset) word)
      (.ofMatch ifRule (0 + string.start.offset + word.start.offset) keyword) := by
  have hfound : quotedWords.Found line .none wordRule (0 + string.start.offset) word :=
    .nested (.scanned hopen (by decide) hstring) (by decide) hword
  exact ⟨_, _, word, ifRule, keyword, hfound, by decide, hkeyword, rfl, rfl⟩

theorem if_mem_hits : ⟨⟨0, none, "if".toList⟩, ⟨2, some 'f', []⟩⟩ ∈ (ifRule.occurrences "if".toList).hits := by decide

/-- two words between quotes -/
def ifIffy : Text := "\"if iffy\"".toList

/-- the keyword is lost in the first word, which is as long as it, and kept in the second one, which is longer -/
theorem nested_lost_iff_quoted :
    ⟨1, 2, ⟨2⟩, ⟨4⟩, .none, 2⟩ ∉ (quotedWords.analyze ifIffy .none).regions ∧
      ¬ ∃ k ∈ (quotedWords.analyze ifIffy .none).regions, k.order ⟨4, 2, ⟨2⟩, ⟨4⟩, .none, 2⟩ = .lt ∧ k.covers 4 = true ∧
        Competes (quotedWords.analyze ifIffy .none).regions ⟨4, 4, ⟨4⟩, ⟨1⟩, .none, 3⟩ k := by
  have hopen : quotedWords.openUntil ifIffy .none ≠ none := by decide
  have hstring : ⟨⟨0, none, ifIffy⟩, ⟨9, some '"', []⟩⟩ ∈ (quotedRule.occurrences ifIffy).hits := by decide
  have hword : ⟨⟨1, some '"', "if iffy\"".toList⟩, ⟨3, some 'f', " iffy\"".toList⟩⟩ ∈
      (wordRule.occurrences ifIffy).hits := by decide +kernel
  have hlonger : ⟨⟨4, some ' ', "iffy\"".toList⟩, ⟨8, some 'y', "\"".toList⟩⟩ ∈
      (wordRule.occurrences ifIffy).hits := by decide +kernel
  have hkeyword : ⟨⟨0, none, "iffy".toList⟩, ⟨2, some 'f', "fy".toList⟩⟩ ∈ (ifRule.occurrences "iffy".toList).hits := by
    decide
  refine ⟨?_, ?_⟩
  · have hkept : ⟨1, 2, ⟨4⟩, ⟨1⟩, .none, 3⟩ ∈ (quotedWords.analyze ifIffy .none).regions := by decide +kernel
    have hturn : OutOfTurn ⟨1, 2, ⟨4⟩, ⟨1⟩, .none, 3⟩ ⟨1, 2, ⟨2⟩, ⟨4⟩, .none, 2⟩ := ⟨rfl, rfl, rfl, by decide⟩
    exact (nested_lost_iff quotedWords_built hkept (quotedWords_records hopen hstring hword if_mem_hits)).1.2 (Or.inl hturn)
  · have hkept : ⟨4, 4, ⟨4⟩, ⟨1⟩, .none, 3⟩ ∈ (quotedWords.analyze ifIffy .none).regions := by decide +kernel
    intro hcompetes
    have hlost := (nested_lost_iff quotedWords_built hkept (quotedWords_records hopen hstring hlonger hkeyword)).1.2
      (Or.inr hcompetes)
    exact hlost (by decide +kernel)

/-- in `"if"` the keyword is recorded in the word, which is kept, and is lost; its place is covered by nothing else than
the word and the text between the quotes, which the word is nested in -/
theorem keyword_lost_out_of_turn :
    ∃ y ∈ (quotedWords.analyze "\"if\"".toList .none).regions, ∃ x, quotedWords.Records "\"if\"".toList .none y x ∧
      x ∉ (quotedWords.analyze "\"if\"".toList .none).regions ∧
      ∀ k ∈ (quotedWords.analyze "\"if\"".toList .none).regions, k.covers x.position = true →
        ¬ Competes (quotedWords.analyze "\"if\"".toList .none).regions y k := by
  have hregions : (quotedWords.analyze "\"if\"".toList .none).regions =
      [⟨0, 4, ⟨1⟩, .none, .none, 1⟩, ⟨1, 2, ⟨4⟩, ⟨1⟩, .none, 3⟩] := by decide +kernel
  have hstring : ⟨⟨0, none, "\"if\"".toList⟩, ⟨4, some '"', []⟩⟩ ∈ (quotedRule.occurrences "\"if\"".toList).hits := by
    decide
  have hword : ⟨⟨1, some '"', "if\"".toList⟩, ⟨3, some 'f', "\"".toList⟩⟩ ∈
      (wordRule.occurrences "\"if\"".toList).hits := by decide +kernel
  rw [hregions]
  refine ⟨_, List.mem_cons_of_mem _ (List.mem_singleton_self _), _,
    quotedWords_records (by decide) hstring hword if_mem_hits, by decide, ?_⟩
  rintro k hk - ⟨hne, hnot⟩
  rcases List.mem_cons.1 hk with rfl | hk
  · exact hnot (.single ⟨by decide, by decide, ⟨by decide, ⟨by decide, by decide⟩, rfl⟩⟩)
  · exact hne (List.mem_singleton.1 hk)

end Grammar

end Linewise
