/-
Following parents.

`Grammar.build` looks at one parent at a time: a rule whose parent is unknown or the rule itself is looked for in whole
lines (`resolvedParent`). What lies further up is not looked at. So the parents of a rule, of its parent and so on end at a
rule without a parent, or they come back to a rule they have passed (`reachesTop_iff`); rules of the second kind are
looked for nowhere (`Built.reachesTop_of_region`).

Main statement: `reached_iff_acyclic`; `loop_unreached` is a grammar of two rules, each the parent of the other.
-/
import Mathlib.Data.Set.Finite.List
import Mathlib.Order.Preorder.Finite
import Linewise.Proofs.Highlighting.Found

namespace Linewise

namespace Grammar

variable {g : Grammar} {rule other : Rule} {n : Nat}

/-! ## Parents -/

/-- the parent that a rule has among rules: the one given, if that is another of them -/
def resolvedParent (rules : List Rule) (rule : Rule) : RuleId :=
  if ∃ other ∈ rules, other.id = rule.parent ∧ other.id ≠ rule.id then rule.parent else .none

theorem adopt_parent (rules : List Rule) (rule : Rule) : (adopt rules rule).parent = resolvedParent rules rule := by
  have hiff : hasParent rules rule = true ↔
      rule.parent = .none ∨ ∃ other ∈ rules, other.id = rule.parent ∧ other.id ≠ rule.id := by
    rw [hasParent, Bool.or_eq_true, RuleId.isNone_iff, Bool.and_eq_true, bne_iff_ne, List.any_eq_true]
    refine or_congr_right ⟨?_, ?_⟩
    · rintro ⟨hne, other, hother, hid⟩
      rw [beq_iff_eq] at hid
      exact ⟨other, hother, hid, hid ▸ hne⟩
    · rintro ⟨other, hother, hid, hne⟩
      exact ⟨hid ▸ hne, other, hother, beq_iff_eq.2 hid⟩
  unfold adopt resolvedParent
  by_cases hother : ∃ other ∈ rules, other.id = rule.parent ∧ other.id ≠ rule.id
  · rw [if_pos (hiff.2 (Or.inr hother)), if_pos hother]
  · rw [if_neg hother]
    split_ifs with hparent
    · exact (hiff.1 hparent).resolve_right hother
    · rfl

/-- **A parent that is no other rule is dropped**, and every other parent stays. -/
theorem build_parents {name : String} {rules : List Rule} {delimiters : List Delimiter} {indents : List IndentPattern}
    (h : build name rules delimiters indents = .ok g) :
    g.rules.map (fun rule => (rule.id, rule.parent)) = rules.map fun rule => (rule.id, resolvedParent rules rule) := by
  rw [(rules_of_build h).2, linkChildren, List.map_map, List.map_map]
  refine List.map_congr_left fun rule _ => ?_
  simp only [Function.comp_apply, adopt_id, adopt_parent]

/-- the parent of a rule is none or another rule -/
theorem Built.parent_cases (hg : g.Built) (hrule : rule ∈ g.rules) :
    rule ∈ g.topLevel ∨ ∃ parent ∈ g.rules, parent ≠ rule ∧ rule.parent = parent.id := by
  obtain ⟨rules, hbuild⟩ := id hg
  have hlinks := build_parents hbuild
  have hlink : (rule.id, rule.parent) ∈ rules.map fun rule => (rule.id, resolvedParent rules rule) :=
    hlinks ▸ List.mem_map.2 ⟨rule, hrule, rfl⟩
  obtain ⟨given, -, hgiven⟩ := List.mem_map.1 hlink
  obtain ⟨hid, hparent⟩ := Prod.mk.inj hgiven
  rw [resolvedParent] at hparent
  split_ifs at hparent with hother
  · obtain ⟨other, hother, hsame, hne⟩ := hother
    have hin : (other.id, resolvedParent rules other) ∈ g.rules.map fun rule => (rule.id, rule.parent) :=
      hlinks ▸ List.mem_map.2 ⟨other, hother, rfl⟩
    obtain ⟨parent, hmem, hpair⟩ := List.mem_map.1 hin
    have hparentId : parent.id = other.id := (Prod.mk.inj hpair).1
    refine Or.inr ⟨parent, hmem, fun hself => ?_, ?_⟩
    · rw [hself, ← hid] at hparentId
      exact hne hparentId.symm
    · rw [← hparent, ← hsame, hparentId]
  · exact Or.inl (mem_topLevel.2 ⟨hrule, hparent.symm⟩)

/-! ## Ancestors -/

/-- the rule that is so many parents up, if there is one -/
def ancestor? (g : Grammar) : Nat → Rule → Option Rule
  | 0, rule => some rule
  | n + 1, rule => (g.rule? rule.parent).bind (g.ancestor? n)

/-- the parents of the rule end at a rule without a parent -/
def ReachesTop (g : Grammar) (rule : Rule) : Prop := ∃ n, ∃ top ∈ g.topLevel, g.ancestor? n rule = some top

/-- the rule is one of its own ancestors -/
def OnCycle (g : Grammar) (rule : Rule) : Prop := ∃ n, 0 < n ∧ g.ancestor? n rule = some rule

/-- the parents of the rule come back to one that they have passed -/
def LeadsIntoCycle (g : Grammar) (rule : Rule) : Prop := ∃ n other, g.ancestor? n rule = some other ∧ g.OnCycle other

theorem ancestor?_add (g : Grammar) (m n : Nat) (rule : Rule) :
    g.ancestor? (m + n) rule = (g.ancestor? m rule).bind (g.ancestor? n) := by
  induction m generalizing rule with
  | zero => rw [Nat.zero_add, ancestor?, Option.bind_some]
  | succ m ih =>
    rw [Nat.succ_add, ancestor?, ancestor?, Option.bind_assoc]
    exact congrArg _ (funext ih)

theorem ancestor?_mem (hrule : rule ∈ g.rules) (h : g.ancestor? n rule = some other) : other ∈ g.rules := by
  induction n generalizing rule with
  | zero =>
    cases h
    exact hrule
  | succ n ih =>
    obtain ⟨parent, hparent, h⟩ := Option.bind_eq_some_iff.1 h
    exact ih (List.mem_of_find?_eq_some hparent) h

theorem Built.ancestor?_child (hg : g.Built) (hother : other ∈ g.rules) (hparent : rule.parent = other.id) (n : Nat) :
    g.ancestor? (n + 1) rule = g.ancestor? n other := by
  rw [ancestor?, hparent, hg.rule?_eq hother, Option.bind_some]

/-- there is nothing above a rule without a parent -/
theorem Built.ancestor?_top (hg : g.Built) (htop : rule ∈ g.topLevel) (hn : 0 < n) : g.ancestor? n rule = none := by
  obtain ⟨m, rfl⟩ := Nat.exists_eq_add_of_lt hn
  have hnone : g.rule? rule.parent = none := by
    rw [(mem_topLevel.1 htop).2]
    refine List.find?_eq_none.2 fun other hother hid => ?_
    exact hg.id_ne_none hother (beq_iff_eq.1 hid)
  rw [Nat.zero_add, ancestor?, hnone, Option.bind_none]

/-- what is nested in matches of a rule without a parent, directly or not, has it as an ancestor -/
theorem Built.level_iff (hg : g.Built) (hrule : rule ∈ g.rules) :
    g.Level rule n ↔ ∃ top ∈ g.topLevel, g.ancestor? n rule = some top := by
  constructor
  · intro h
    induction h with
    | top htop => exact ⟨_, htop, rfl⟩
    | child houter hchild ih =>
      obtain ⟨top, htop, hancestor⟩ := ih houter.mem
      exact ⟨top, htop, by rw [hg.ancestor?_child houter.mem (houter.parent_eq hg hchild), hancestor]⟩
  · rintro ⟨top, htop, h⟩
    induction n generalizing rule with
    | zero =>
      cases h
      exact .top htop
    | succ n ih =>
      obtain hself | ⟨parent, hmem, -, hparent⟩ := hg.parent_cases hrule
      · rw [hg.ancestor?_top hself (Nat.succ_pos n)] at h
        cases h
      · rw [hg.ancestor?_child hmem hparent] at h
        exact .child (ih hmem h) ((hg.mem_children hmem).2 ⟨hrule, hparent⟩)

theorem OnCycle.ancestor?_mul {m : Nat} (h : g.ancestor? m rule = some rule) (k : Nat) :
    g.ancestor? (k * m) rule = some rule := by
  induction k with
  | zero => rw [Nat.zero_mul, ancestor?]
  | succ k ih => rw [Nat.succ_mul, ancestor?_add, ih, Option.bind_some, h]

/-- where parents come back, they never end -/
theorem LeadsIntoCycle.isSome (h : g.LeadsIntoCycle rule) (n : Nat) : (g.ancestor? n rule).isSome = true := by
  obtain ⟨m, other, hother, k, hk, hcycle⟩ := h
  -- so many rounds that the ancestor asked for has been passed
  have hfar : g.ancestor? (m + n * k) rule = some other := by
    rw [ancestor?_add, hother, Option.bind_some, OnCycle.ancestor?_mul hcycle]
  have hle : n ≤ m + n * k := Nat.le_add_left_of_le (Nat.le_mul_of_pos_right n hk)
  obtain ⟨rest, hrest⟩ := Nat.exists_eq_add_of_le hle
  rw [hrest, ancestor?_add] at hfar
  obtain ⟨passed, hpassed, -⟩ := Option.bind_eq_some_iff.1 hfar
  rw [hpassed, Option.isSome_some]

/-- **Parents end, or they come back to a rule that they have passed.** There are only so many rules, so parents that do
not end repeat one. -/
theorem Built.reachesTop_iff (hg : g.Built) (hrule : rule ∈ g.rules) : g.ReachesTop rule ↔ ¬ g.LeadsIntoCycle rule := by
  constructor
  · rintro ⟨n, top, htop, hancestor⟩ hcycle
    have hsome := hcycle.isSome (n + 1)
    rw [ancestor?_add, hancestor, Option.bind_some, hg.ancestor?_top htop Nat.one_pos] at hsome
    cases hsome
  · intro hacyclic
    by_contra hunreached
    have hsome : ∀ n, ∃ other ∈ g.rules, g.ancestor? n rule = some other := by
      intro n
      induction n with
      | zero => exact ⟨rule, hrule, rfl⟩
      | succ n ih =>
        obtain ⟨other, hother, hancestor⟩ := ih
        obtain htop | ⟨parent, hparent, -, hid⟩ := hg.parent_cases hother
        · exact absurd ⟨n, other, htop, hancestor⟩ hunreached
        · refine ⟨parent, hparent, ?_⟩
          rw [ancestor?_add, hancestor, Option.bind_some, hg.ancestor?_child hparent hid, ancestor?]
    choose chain hchain hancestor using hsome
    obtain ⟨m, n, hlt, hsame⟩ := Set.Finite.exists_lt_map_eq_of_forall_mem hchain (List.finite_toSet g.rules)
    obtain ⟨k, rfl⟩ := Nat.exists_eq_add_of_lt hlt
    refine hacyclic ⟨m, chain m, hancestor m, k + 1, Nat.succ_pos k, ?_⟩
    have hback := hancestor (m + k + 1)
    rw [Nat.add_assoc, ancestor?_add, hancestor m, Option.bind_some, ← Nat.add_assoc, ← hsame] at hback
    exact hback

/-- what is highlighted in a line belongs to rules whose parents end -/
theorem Built.reachesTop_of_region (hg : g.Built) (hrule : rule ∈ g.rules) {text : Text} {incoming : RuleId} {r : Region}
    (hr : r ∈ (g.analyze text incoming).regions) (hid : r.rule = rule.id) : g.ReachesTop rule := by
  obtain ⟨found, base, hit, hfound, rfl⟩ := (mem_candidates_iff_found hg).1 (mem_candidates_of_mem hr)
  obtain ⟨n, hlevel⟩ := hfound.level
  have hsame : found = rule := hg.eq_of_id hfound.mem hrule hid
  exact ⟨n, (hg.level_iff hrule).1 (hsame ▸ hlevel)⟩

/-- **Which rules of a grammar can be looked for.** Parents that are no other rule are dropped. A rule is nested, directly or
not, in a rule without a parent exactly if its parents end, that is, if they do not come back to a rule they have passed;
no line is ever highlighted with a rule of the latter kind. So every rule can be looked for exactly if none is its own
ancestor, two or more parents up. -/
theorem reached_iff_acyclic {name : String} {rules : List Rule} {delimiters : List Delimiter} {indents : List IndentPattern}
    (h : build name rules delimiters indents = .ok g) :
    g.rules.map (fun rule => (rule.id, rule.parent)) = rules.map (fun rule => (rule.id, resolvedParent rules rule)) ∧
    (∀ rule ∈ g.rules, ((∃ n, g.Level rule n) ↔ g.ReachesTop rule) ∧ (g.ReachesTop rule ↔ ¬ g.LeadsIntoCycle rule) ∧
      (g.LeadsIntoCycle rule → ∀ text incoming, ∀ r ∈ (g.analyze text incoming).regions, r.rule ≠ rule.id)) ∧
    ((∀ rule ∈ g.rules, g.ReachesTop rule) ↔ ∀ rule ∈ g.rules, ∀ n, 2 ≤ n → g.ancestor? n rule ≠ some rule) := by
  have hg : g.Built := built_of_build h
  refine ⟨build_parents h, fun rule hrule => ⟨?_, hg.reachesTop_iff hrule, ?_⟩, ?_, ?_⟩
  · exact exists_congr fun n => hg.level_iff hrule
  · intro hcycle text incoming r hr hid
    exact (hg.reachesTop_iff hrule).1 (hg.reachesTop_of_region hrule hr hid) hcycle
  · intro hreached rule hrule n hn hcycle
    exact (hg.reachesTop_iff hrule).1 (hreached rule hrule) ⟨0, rule, rfl, n, by omega, hcycle⟩
  · intro hacyclic rule hrule
    refine (hg.reachesTop_iff hrule).2 ?_
    rintro ⟨m, other, hother, n, hn, hcycle⟩
    -- twice around the cycle is at least two parents up
    exact hacyclic other (ancestor?_mem hrule hother) (2 * n) (by omega) (OnCycle.ancestor?_mul hcycle 2)

/-- a string, what is escaped in it, and two words that are the parents of each other -/
def loopRules : List Rule :=
  [{ Rule.range ⟨1⟩ "string" ['"'] ['"'] .none 1 with children := [⟨2⟩] },
    { Rule.keyword ⟨2⟩ "escape" ['x'] .none 2 with parent := ⟨1⟩ },
    { Rule.keyword ⟨4⟩ "first" ['a'] .none 3 with parent := ⟨8⟩, children := [⟨8⟩] },
    { Rule.keyword ⟨8⟩ "second" ['b'] .none 4 with parent := ⟨4⟩, children := [⟨4⟩] }]

/-- the grammar of these rules; all parents stay -/
def loop : Grammar where
  name := "loop"
  rules := loopRules
  delimiters := []
  indents := []

theorem build_loop : build "loop" loopRules [] [] = .ok loop := by decide +kernel

theorem loop_leadsIntoCycle : loop.LeadsIntoCycle loopRules[2] := ⟨0, loopRules[2], rfl, 2, by decide, by decide +kernel⟩

/-- the rule in the string can be looked for, and the words cannot -/
theorem reached_iff_acyclic_loop : build "loop" loopRules [] [] = .ok loop ∧ loop.ReachesTop loopRules[1] ∧
    ¬ loop.ReachesTop loopRules[2] ∧
    ∀ text incoming, ∀ r ∈ (loop.analyze text incoming).regions, r.rule ≠ loopRules[2].id := by
  obtain ⟨-, hrules, -⟩ := reached_iff_acyclic build_loop
  obtain ⟨hlevel, -, -⟩ := hrules loopRules[1] (by decide +kernel)
  obtain ⟨-, hiff, hnever⟩ := hrules loopRules[2] (by decide +kernel)
  refine ⟨build_loop, hlevel.1 ⟨1, ?_⟩, fun hreached => hiff.1 hreached loop_leadsIntoCycle,
    hnever loop_leadsIntoCycle⟩
  have hstring : loop.Level loopRules[0] 0 := .top (by decide +kernel)
  exact hstring.child (by decide +kernel)

/-- the grammar is built, and following parents from the first word never comes to a rule without one: it is neither such
a rule nor nested in one -/
theorem loop_unreached : ∃ g, build "loop" loopRules [] [] = .ok g ∧
    ∃ rule ∈ g.rules, ¬ g.ReachesTop rule ∧ ∀ n, ¬ g.Level rule n := by
  have hrule : loopRules[2] ∈ loop.rules := by decide +kernel
  have hg : loop.Built := built_of_build build_loop
  have hunreached : ¬ loop.ReachesTop loopRules[2] :=
    fun hreached => (hg.reachesTop_iff hrule).1 hreached loop_leadsIntoCycle
  exact ⟨loop, build_loop, loopRules[2], hrule, hunreached, fun n hlevel => hunreached ⟨n, (hg.level_iff hrule).1 hlevel⟩⟩

end Grammar

end Linewise
