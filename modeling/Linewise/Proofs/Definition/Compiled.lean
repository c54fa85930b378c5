/-
Which definitions compile, and how the rules of the grammar are linked.

The faults of a definition have an order: no name, too many rules, a name that an earlier rule has, a pattern that a rule
needs and lacks. A definition is refused for the first of them (`Refused`), and one without any is compiled
(`WellFormed`). The ids that compiling gives out are distinct single bits, and the parents are ids that were given out, so
`Grammar.build` has nothing to refuse and no parent to drop (`HasLinks.build`).

Main statement: `compile_exact`.
-/
import Mathlib.Data.List.Nodup
import Mathlib.Tactic.SplitIfs
import Linewise.Proofs.Grammar.Built
import Linewise.Proofs.Library.FailedLoad

namespace Linewise

/-! ## One rule -/

namespace RuleDefinition

variable {d : RuleDefinition} {id : RuleId} {style : Nat}

/-- the pattern that the rule needs and that is not written; of a range, the opening one is asked for first -/
def missing? (d : RuleDefinition) : Option String :=
  match d.resolvedKind with
  | .keyword => if d.regex.isNone then some "regex" else none
  | .range => if d.opening.isNone then some "begin" else if d.closing.isNone then some "end" else none

theorem toRule_incomplete {field : String} (h : d.missing? = some field) :
    d.toRule id style = .error (.missingField d.name field) := by
  unfold missing? at h
  unfold toRule
  cases hkind : d.resolvedKind with
  | keyword => cases hregex : d.regex <;> simp_all
  | range => cases hopening : d.opening <;> cases hclosing : d.closing <;> simp_all

theorem toRule_complete (h : d.missing? = none) (id : RuleId) (style : Nat) :
    ∃ rule, d.toRule id style = .ok rule ∧ rule.id = id ∧ rule.name = d.name := by
  unfold missing? at h
  unfold toRule
  cases hkind : d.resolvedKind with
  | keyword =>
    cases hregex : d.regex with
    | none => simp [hkind, hregex] at h
    | some regex => exact ⟨_, rfl, rfl, rfl⟩
  | range =>
    cases hopening : d.opening with
    | none => simp [hkind, hopening] at h
    | some opening =>
      cases hclosing : d.closing with
      | none => simp [hkind, hopening, hclosing] at h
      | some closing => exact ⟨_, rfl, rfl, rfl⟩

end RuleDefinition

namespace GrammarDefinition

variable {d : GrammarDefinition} {name : String} {styles : StyleTable} {index : Nat} {written : List RuleDefinition}
  {rules : List Rule} {g : Grammar}

/-! ## Faults, in order -/

/-- the definition is refused with the error: each fault is looked for only if those before it are not there, and of
several rules with a fault the first one is told -/
inductive Refused (d : GrammarDefinition) : LoadError → Prop
  | unnamed : d.name.getD "" = "" → Refused d (.missingField "grammar" "name")
  | tooMany : d.name.getD "" ≠ "" → 64 < d.rules.length → Refused d (.tooManyRules d.rules.length)
  | repeated {above below : List RuleDefinition} {rule : RuleDefinition} : d.name.getD "" ≠ "" → d.rules.length ≤ 64 →
      d.rules = above ++ rule :: below → (above.map (·.name)).Nodup → rule.name ∈ above.map (·.name) →
      Refused d (.duplicateName rule.name)
  | incomplete {above below : List RuleDefinition} {rule : RuleDefinition} {field : String} : d.name.getD "" ≠ "" →
      d.rules.length ≤ 64 → (d.rules.map (·.name)).Nodup → d.rules = above ++ rule :: below →
      (∀ earlier ∈ above, earlier.missing? = none) → rule.missing? = some field →
      Refused d (.missingField rule.name field)

/-- the definition has no fault -/
structure WellFormed (d : GrammarDefinition) : Prop where
  named : d.name.getD "" ≠ ""
  count : d.rules.length ≤ 64
  distinct : (d.rules.map (·.name)).Nodup
  complete : ∀ rule ∈ d.rules, rule.missing? = none

theorem repeatedName?_eq_some_iff {used : List String} {repeatedName : String} :
    repeatedName? used written = some repeatedName ↔
      ∃ above rule below, written = above ++ rule :: below ∧ rule.name = repeatedName ∧
        (∀ name ∈ above.map (·.name), name ∉ used) ∧ (above.map (·.name)).Nodup ∧
          (repeatedName ∈ used ∨ repeatedName ∈ above.map (·.name)) := by
  induction written generalizing used with
  | nil => simp [repeatedName?]
  | cons first written ih =>
    by_cases hused : first.name ∈ used
    · simp only [repeatedName?, List.contains_eq_mem, hused, decide_true, if_true, Option.some.injEq]
      constructor
      · rintro rfl
        exact ⟨[], first, written, rfl, rfl, by simp, List.nodup_nil, Or.inl hused⟩
      · rintro ⟨above, rule, below, hwritten, rfl, hfresh, -, -⟩
        -- the repeated rule is the first one, as no rule above it may be in use
        cases above with
        | nil => rw [(List.cons.inj hwritten).1]
        | cons other above =>
          rw [← (List.cons.inj hwritten).1] at hfresh
          exact absurd hused (hfresh _ (by simp))
    · simp only [repeatedName?, List.contains_eq_mem, hused, decide_false, Bool.false_eq_true, if_false, ih]
      constructor
      · rintro ⟨above, rule, below, rfl, rfl, hfresh, hnodup, hrepeated⟩
        refine ⟨first :: above, rule, below, rfl, rfl, ?_, ?_, ?_⟩
        · intro name hname
          rcases List.mem_cons.1 hname with rfl | hname
          · exact hused
          · exact fun hin => hfresh name hname (List.mem_cons_of_mem _ hin)
        · exact List.nodup_cons.2 ⟨fun hin => hfresh _ hin List.mem_cons_self, hnodup⟩
        · rw [List.mem_cons] at hrepeated
          rw [List.map_cons, List.mem_cons]
          tauto
      · rintro ⟨above, rule, below, hwritten, rfl, hfresh, hnodup, hrepeated⟩
        cases above with
        | nil =>
          rw [(List.cons.inj hwritten).1] at hused
          exact absurd (hrepeated.resolve_right List.not_mem_nil) hused
        | cons other above =>
          obtain ⟨rfl, rfl⟩ := List.cons.inj hwritten
          rw [List.map_cons, List.nodup_cons] at hnodup
          refine ⟨above, rule, below, rfl, rfl, ?_, hnodup.2, ?_⟩
          · intro name hname hin
            rcases List.mem_cons.1 hin with rfl | hin
            · exact hnodup.1 hname
            · exact hfresh name (List.mem_cons_of_mem _ hname) hin
          · rw [List.map_cons, List.mem_cons] at hrepeated
            rw [List.mem_cons]
            tauto

/-- every definition is refused or well formed -/
theorem refused_or_wellFormed (d : GrammarDefinition) : (∃ error, d.Refused error) ∨ d.WellFormed := by
  by_cases hname : d.name.getD "" = ""
  · exact Or.inl ⟨_, .unnamed hname⟩
  by_cases hcount : 64 < d.rules.length
  · exact Or.inl ⟨_, .tooMany hname hcount⟩
  cases hrepeated : repeatedName? [] d.rules with
  | some repeatedName =>
    obtain ⟨above, rule, below, hrules, rfl, -, hnodup, hin⟩ := repeatedName?_eq_some_iff.1 hrepeated
    exact Or.inl ⟨_, .repeated hname (by omega) hrules hnodup (hin.resolve_left List.not_mem_nil)⟩
  | none =>
    have hdistinct := (repeatedName?_eq_none_iff.1 hrepeated).2
    cases hmissing : d.rules.findSome? fun rule => rule.missing?.map (rule, ·) with
    | some found =>
      obtain ⟨above, rule, below, hrules, hfound, habove⟩ := List.findSome?_eq_some_iff.1 hmissing
      obtain ⟨field, hfield, -⟩ := Option.map_eq_some_iff.1 hfound
      refine Or.inl ⟨_, .incomplete hname (by omega) hdistinct hrules (fun earlier hearlier => ?_) hfield⟩
      simpa using habove earlier hearlier
    | none =>
      refine Or.inr ⟨hname, by omega, hdistinct, fun rule hrule => ?_⟩
      simpa using List.findSome?_eq_none_iff.1 hmissing rule hrule

/-! ## Links -/

/-- the parent of a rule with the given id: the rule it names, if that is another one -/
def parentIn (d : GrammarDefinition) (id : RuleId) (written : RuleDefinition) : RuleId :=
  (written.parent.bind (d.parentId? id)).getD .none

/-- what ties a rule to others: its id, its name and its parent -/
structure Link where
  id : RuleId
  name : String
  parent : RuleId

/-- the link of a rule -/
def linkOf (rule : Rule) : Link := ⟨rule.id, rule.name, rule.parent⟩

/-- the links of rules, the first of them with bit `index` -/
def linksFrom (d : GrammarDefinition) (index : Nat) (written : List RuleDefinition) : List Link :=
  written.mapIdx fun i rule => ⟨.ofIndex (index + i), rule.name, d.parentIn (.ofIndex (index + i)) rule⟩

theorem linksFrom_cons (d : GrammarDefinition) (index : Nat) (first : RuleDefinition) (written : List RuleDefinition) :
    d.linksFrom index (first :: written) =
      ⟨.ofIndex index, first.name, d.parentIn (.ofIndex index) first⟩ :: d.linksFrom (index + 1) written := by
  simp only [linksFrom, List.mapIdx_cons, Nat.add_zero, Nat.add_assoc, Nat.add_comm 1]

theorem parentOf_fst (d : GrammarDefinition) (name : String) (id : RuleId) (rule : RuleDefinition) :
    (d.parentOf name id rule).1 = d.parentIn id rule := by
  unfold parentOf parentIn
  cases rule.parent with
  | none => rfl
  | some parent => cases hfound : d.parentId? id parent <;> simp [hfound]

/-- rules up to one that lacks a pattern are compiled in vain -/
theorem compileRules_incomplete {above below : List RuleDefinition} {rule : RuleDefinition} {field : String}
    (habove : ∀ earlier ∈ above, earlier.missing? = none) (hfield : rule.missing? = some field) :
    (d.compileRules name styles index (above ++ rule :: below)).result = .error (.missingField rule.name field) := by
  induction above generalizing styles index with
  | nil => simp only [List.nil_append, compileRules, RuleDefinition.toRule_incomplete hfield]
  | cons first above ih =>
    obtain ⟨hfirst, habove⟩ := List.forall_mem_cons.1 habove
    obtain ⟨compiled, hcompiled, -, -⟩ := RuleDefinition.toRule_complete hfirst (.ofIndex index)
      (d.styleOf name first styles).1
    simp only [List.cons_append, compileRules, hcompiled, ih habove]
    rfl

/-- rules that lack no pattern are compiled and linked -/
theorem compileRules_complete (h : ∀ rule ∈ written, rule.missing? = none) (styles : StyleTable) (index : Nat) :
    ∃ rules, (d.compileRules name styles index written).result = .ok rules ∧
      rules.map linkOf = d.linksFrom index written := by
  induction written generalizing styles index with
  | nil => exact ⟨[], rfl, rfl⟩
  | cons first written ih =>
    obtain ⟨hfirst, hwritten⟩ := List.forall_mem_cons.1 h
    obtain ⟨rule, hrule, hid, hname⟩ := RuleDefinition.toRule_complete hfirst (.ofIndex index)
      (d.styleOf name first styles).1
    obtain ⟨rules, hrules, hlinks⟩ := ih hwritten (d.styleOf name first styles).2.1 (index + 1)
    refine ⟨{ rule with parent := (d.parentOf name (.ofIndex index) first).1 } :: rules, ?_, ?_⟩
    · simp only [compileRules, hrule, hrules]
      rfl
    · rw [List.map_cons, hlinks, linksFrom_cons, linkOf, hid, hname, parentOf_fst]

theorem WellFormed.eq_of_name (hd : d.WellFormed) {i j : Nat} (hi : i < d.rules.length) (hj : j < d.rules.length)
    (h : d.rules[i].name = d.rules[j].name) : i = j := by
  have hrules := List.inj_on_of_nodup_map hd.distinct (List.getElem_mem hi) (List.getElem_mem hj) h
  exact (List.Nodup.getElem_inj_iff (List.Nodup.of_map _ hd.distinct)).1 hrules

/-- the rule that a name selects among rules of distinct names -/
theorem findIdx?_name_iff (hd : d.WellFormed) {parent : String} {j : Nat} :
    d.rules.findIdx? (fun rule => rule.name == parent) = some j ↔ ∃ hj : j < d.rules.length, d.rules[j].name = parent := by
  rw [List.findIdx?_eq_some_iff_getElem]
  refine exists_congr fun hj => ?_
  simp only [beq_iff_eq]
  refine ⟨fun h => h.1, fun h => ⟨h, fun i hi hsame => ?_⟩⟩
  exact Nat.ne_of_lt hi (hd.eq_of_name (Nat.lt_trans hi hj) hj (hsame.trans h.symm))

theorem parentIn_eq_ofIndex_iff (hd : d.WellFormed) {i j : Nat} (hi : i < d.rules.length) (hj : j < d.rules.length)
    {rule : RuleDefinition} :
    d.parentIn (.ofIndex i) rule = .ofIndex j ↔ rule.parent = some d.rules[j].name ∧ i ≠ j := by
  have hi64 : i < RuleId.capacity := Nat.lt_of_lt_of_le hi hd.count
  have hj64 : j < RuleId.capacity := Nat.lt_of_lt_of_le hj hd.count
  have hsome : RuleId.ofIndex j ≠ .none := RuleId.ne_none_of_isSingle (RuleId.isSingle_iff.2 ⟨j, hj64, rfl⟩)
  constructor
  · intro h
    unfold parentIn at h
    cases hparent : rule.parent.bind (d.parentId? (.ofIndex i)) with
    | none => exact absurd (by rw [hparent] at h; exact h.symm) hsome
    | some found =>
      rw [hparent, Option.getD_some] at h
      obtain ⟨parent, hname, hfound⟩ := Option.bind_eq_some_iff.1 hparent
      rw [parentId?, Option.filter_eq_some_iff, Option.map_eq_some_iff, h] at hfound
      obtain ⟨⟨k, hk, hsame⟩, hother⟩ := hfound
      obtain ⟨hlt, hk⟩ := (findIdx?_name_iff hd).1 hk
      obtain rfl := RuleId.ofIndex_inj (Nat.lt_of_lt_of_le hlt hd.count) hj64 hsame
      exact ⟨by rw [hname, hk], fun heq => by simp [heq] at hother⟩
  · rintro ⟨hname, hne⟩
    have hplace := (findIdx?_name_iff hd).2 ⟨hj, rfl⟩
    have hother : (RuleId.ofIndex j != RuleId.ofIndex i) = true :=
      bne_iff_ne.2 fun hsame => hne (RuleId.ofIndex_inj hj64 hi64 hsame).symm
    simp [parentIn, parentId?, hname, hplace, Option.filter, hother]

/-- a parent is none or one of the rules -/
theorem parentIn_cases (hd : d.WellFormed) (id : RuleId) (rule : RuleDefinition) :
    d.parentIn id rule = .none ∨ ∃ j < d.rules.length, d.parentIn id rule = .ofIndex j ∧ RuleId.ofIndex j ≠ id := by
  unfold parentIn
  cases hparent : rule.parent.bind (d.parentId? id) with
  | none => exact Or.inl rfl
  | some found =>
    obtain ⟨parent, -, hfound⟩ := Option.bind_eq_some_iff.1 hparent
    rw [parentId?, Option.filter_eq_some_iff, Option.map_eq_some_iff] at hfound
    obtain ⟨⟨j, hj, rfl⟩, hother⟩ := hfound
    obtain ⟨hlt, -⟩ := (findIdx?_name_iff hd).1 hj
    exact Or.inr ⟨j, hlt, rfl, bne_iff_ne.1 hother⟩

/-- the rules are linked as the definition says -/
def HasLinks (d : GrammarDefinition) (rules : List Rule) : Prop := rules.map linkOf = d.linksFrom 0 d.rules

namespace HasLinks

variable (h : d.HasLinks rules)
include h

theorem length_eq : rules.length = d.rules.length := by
  have hlength := congrArg List.length h
  simpa [linksFrom] using hlength

theorem of_getElem? {i : Nat} {rule : Rule} (hrule : rules[i]? = some rule) :
    ∃ hi : i < d.rules.length, rule.id = .ofIndex i ∧ rule.name = d.rules[i].name ∧
      rule.parent = d.parentIn (.ofIndex i) d.rules[i] := by
  obtain ⟨hi, -⟩ := List.getElem?_eq_some_iff.1 hrule
  rw [h.length_eq] at hi
  have hlink := congrArg (fun links => links[i]?) h
  simp only [linksFrom, List.getElem?_map, hrule, List.getElem?_mapIdx, List.getElem?_eq_getElem hi, Option.map_some,
    Option.some.injEq, Nat.zero_add, linkOf, Link.mk.injEq] at hlink
  exact ⟨hi, hlink⟩

theorem map_id : rules.map (·.id) = (List.range d.rules.length).map RuleId.ofIndex := by
  refine List.ext_getElem? fun i => ?_
  rw [List.getElem?_map, List.getElem?_map]
  cases hrule : rules[i]? with
  | none =>
    have hi : d.rules.length ≤ i := h.length_eq ▸ List.getElem?_eq_none_iff.1 hrule
    simp [hi]
  | some rule =>
    obtain ⟨hi, hid, -⟩ := h.of_getElem? hrule
    simp [hi, hid]

theorem idError?_eq_none (hd : d.WellFormed) : Grammar.idError? [] rules = none := by
  have hlt : ∀ i ∈ List.range d.rules.length, i < RuleId.capacity :=
    fun i hi => Nat.lt_of_lt_of_le (List.mem_range.1 hi) hd.count
  refine Grammar.idError?_of_distinct (fun rule hrule => ⟨?_, List.not_mem_nil⟩) ?_
  · have hid : rule.id ∈ (List.range d.rules.length).map RuleId.ofIndex := h.map_id ▸ List.mem_map_of_mem hrule
    obtain ⟨i, hi, hid⟩ := List.mem_map.1 hid
    exact RuleId.isSingle_iff.2 ⟨i, hlt i hi, hid⟩
  · rw [h.map_id]
    exact List.Nodup.map_on (fun i hi j hj hsame => RuleId.ofIndex_inj (hlt i hi) (hlt j hj) hsame) List.nodup_range

theorem adopt_eq (hd : d.WellFormed) {rule : Rule} (hrule : rule ∈ rules) : Grammar.adopt rules rule = rule := by
  obtain ⟨i, hi⟩ := List.mem_iff_getElem?.1 hrule
  obtain ⟨hlt, hid, -, hparent⟩ := h.of_getElem? hi
  refine if_pos ?_
  rw [Grammar.hasParent, hparent, Bool.or_eq_true, Bool.and_eq_true, List.any_eq_true]
  rcases parentIn_cases hd (.ofIndex i) d.rules[i] with hnone | ⟨j, hj, hparent, hother⟩
  · exact Or.inl (RuleId.isNone_iff.2 hnone)
  · rw [hparent, hid]
    have hin : RuleId.ofIndex j ∈ rules.map (·.id) := by
      rw [h.map_id]
      exact List.mem_map_of_mem (List.mem_range.2 hj)
    obtain ⟨other, hmem, hsame⟩ := List.mem_map.1 hin
    exact Or.inr ⟨bne_iff_ne.2 hother, other, hmem, beq_iff_eq.2 hsame⟩

/-- **Linked rules make a grammar**, and each keeps its parent. -/
theorem build (hd : d.WellFormed) (name : String) (delimiters : List Delimiter) (indents : List IndentPattern) :
    ∃ g, Grammar.build name rules delimiters indents = .ok g ∧ d.HasLinks g.rules := by
  have hcount : ¬ RuleId.capacity < rules.length := by
    rw [h.length_eq]
    exact Nat.not_lt.2 hd.count
  have hadopted : rules.map (Grammar.adopt rules) = rules := by
    rw [List.map_congr_left fun rule hrule => h.adopt_eq hd hrule, List.map_id']
  have hbuild : ∃ g, Grammar.build name rules delimiters indents = .ok g := by
    rw [Grammar.build, if_neg hcount, h.idError?_eq_none hd]
    exact ⟨_, rfl⟩
  obtain ⟨g, hg⟩ := hbuild
  refine ⟨g, hg, ?_⟩
  -- to have children changes no link
  rw [HasLinks, (Grammar.rules_of_build hg).2, hadopted, Grammar.linkChildren, List.map_map]
  exact h

end HasLinks

end GrammarDefinition

/-- the rule names the other one as its parent, and is not that one itself -/
def RuleDefinition.IsChildOf (rule other : RuleDefinition) : Prop :=
  rule.parent = some other.name ∧ rule.name ≠ other.name

instance (rule other : RuleDefinition) : Decidable (rule.IsChildOf other) := inferInstanceAs (Decidable (_ ∧ _))

namespace GrammarDefinition

variable {d : GrammarDefinition} {g : Grammar} {rules : List Rule} {styles : StyleTable}

/-- the grammar has the rules of the definition in their order. The rule at place `i` has bit `i`; its parent is the rule
that it names, if that is another rule of the definition, and none otherwise; and the children of a rule are those that
name it, in order. -/
structure Linked (d : GrammarDefinition) (g : Grammar) : Prop where
  names : g.rules.map (·.name) = d.rules.map (·.name)
  id : ∀ (i : Nat) (rule : Rule), g.rules[i]? = some rule → rule.id.bits.toNat = 2 ^ i
  parent : ∀ p ∈ d.rules.zip g.rules, ∀ q ∈ d.rules.zip g.rules, p.2.parent = q.2.id ↔ p.1.IsChildOf q.1
  topLevel : ∀ p ∈ d.rules.zip g.rules, p.2.parent = .none ↔ ∀ other ∈ d.rules, ¬ p.1.IsChildOf other
  children : ∀ q ∈ d.rules.zip g.rules,
    g.children q.2.id = ((d.rules.zip g.rules).filter fun p => p.1.IsChildOf q.1).map (·.2)

/-- a rule of the grammar with what was written of it -/
theorem HasLinks.of_mem_zip (h : d.HasLinks rules) {p : RuleDefinition × Rule} (hp : p ∈ d.rules.zip rules) :
    ∃ (i : Nat) (hi : i < d.rules.length), p.1 = d.rules[i] ∧ p.2.id = .ofIndex i ∧
      p.2.parent = d.parentIn (.ofIndex i) p.1 := by
  obtain ⟨i, hi⟩ := List.mem_iff_getElem?.1 hp
  obtain ⟨hwritten, hrule⟩ := List.getElem?_zip_eq_some.1 hi
  obtain ⟨hlt, hid, -, hparent⟩ := h.of_getElem? hrule
  have hsame : p.1 = d.rules[i] := by
    rw [List.getElem?_eq_getElem hlt, Option.some.injEq] at hwritten
    exact hwritten.symm
  exact ⟨i, hlt, hsame, hid, by rw [hparent, hsame]⟩

/-- among rules of distinct names, to name another rule is to name a rule at another place -/
theorem WellFormed.parentIn_eq_iff (hd : d.WellFormed) {i j : Nat} (hi : i < d.rules.length) (hj : j < d.rules.length) :
    d.parentIn (.ofIndex i) d.rules[i] = .ofIndex j ↔ d.rules[i].IsChildOf d.rules[j] := by
  rw [parentIn_eq_ofIndex_iff hd hi hj, RuleDefinition.IsChildOf]
  exact and_congr_right fun _ => not_congr ⟨fun hsame => by subst hsame; rfl, hd.eq_of_name hi hj⟩

theorem HasLinks.linked (hd : d.WellFormed) (hg : g.Built) (h : d.HasLinks g.rules) : d.Linked g := by
  have hparent : ∀ p ∈ d.rules.zip g.rules, ∀ q ∈ d.rules.zip g.rules, p.2.parent = q.2.id ↔ p.1.IsChildOf q.1 := by
    intro p hp q hq
    obtain ⟨i, hi, hpi, -, hparent⟩ := h.of_mem_zip hp
    obtain ⟨j, hj, hqj, hid, -⟩ := h.of_mem_zip hq
    rw [hparent, hid, hpi, hqj]
    exact hd.parentIn_eq_iff hi hj
  refine ⟨?_, ?_, hparent, ?_, ?_⟩
  · refine List.ext_getElem (by simp [h.length_eq]) fun i hi _ => ?_
    rw [List.length_map] at hi
    obtain ⟨_, -, hname, -⟩ := h.of_getElem? (List.getElem?_eq_getElem hi)
    simpa using hname
  · intro i rule hrule
    obtain ⟨hi, hid, -⟩ := h.of_getElem? hrule
    rw [hid]
    exact RuleId.ofIndex_bits (Nat.lt_of_lt_of_le hi hd.count)
  · intro p hp
    obtain ⟨i, hi, hpi, -, hparent⟩ := h.of_mem_zip hp
    rw [hparent, hpi]
    constructor
    · intro hnone other hother hchild
      obtain ⟨j, hj, rfl⟩ := List.getElem_of_mem hother
      rw [(hd.parentIn_eq_iff hi hj).2 hchild] at hnone
      exact RuleId.ne_none_of_isSingle (RuleId.isSingle_iff.2 ⟨j, Nat.lt_of_lt_of_le hj hd.count, rfl⟩) hnone
    · intro hnone
      refine (parentIn_cases hd _ _).resolve_right ?_
      rintro ⟨j, hj, hfound, -⟩
      exact hnone _ (List.getElem_mem hj) ((hd.parentIn_eq_iff hi hj).1 hfound)
  · intro q hq
    have hrules : (d.rules.zip g.rules).map Prod.snd = g.rules := List.map_snd_zip (Nat.le_of_eq h.length_eq)
    rw [hg.children_eq (List.of_mem_zip hq).2, ← hrules, List.filter_map, hrules]
    refine congrArg _ (List.filter_congr fun p hp => ?_)
    rw [Bool.eq_iff_iff, Function.comp_apply, beq_iff_eq, decide_eq_true_iff]
    exact hparent p hp q hq

/-! ## Compiling -/

/-- a definition with a name is refused by the checks of its rules alone -/
theorem compile_named (h : d.name.getD "" ≠ "") (styles : StyleTable) :
    ∃ name, d.compile styles =
      if 64 < d.rules.length then { styles, result := .error (.tooManyRules d.rules.length) }
      else
        match repeatedName? [] d.rules with
        | some rule => { styles, result := .error (.duplicateName rule) }
        | none => d.assemble name (d.compileRules name (styles.declare d.styles) 0 d.rules) := by
  cases hname : d.name with
  | none => exact absurd (by rw [hname]; rfl) h
  | some name =>
    have hne : name ≠ "" := by simpa [hname] using h
    refine ⟨name, ?_⟩
    unfold compile
    split
    · rename_i hnone
      simp [hname] at hnone
    · rename_i hempty
      simp [hname, hne] at hempty
    · rename_i other _ hother
      rw [hname] at hother
      cases hother
      rfl

theorem compile_of_refused {error : LoadError} (h : d.Refused error) (styles : StyleTable) :
    (d.compile styles).result = .error error := by
  cases h with
  | unnamed hname =>
    unfold compile
    split
    · rfl
    · rfl
    · rename_i name hne hname'
      rw [hname'] at hname
      exact absurd hname hne
  | tooMany hname hcount =>
    obtain ⟨name, hcompile⟩ := compile_named hname styles
    rw [hcompile, if_pos hcount]
  | repeated hname hcount hrules hdistinct hin =>
    obtain ⟨name, hcompile⟩ := compile_named hname styles
    have hrepeated := repeatedName?_eq_some_iff.2 ⟨_, _, _, hrules, rfl, fun _ _ => List.not_mem_nil, hdistinct, Or.inr hin⟩
    rw [hcompile, if_neg (Nat.not_lt.2 hcount), hrepeated]
  | @incomplete above below rule field hname hcount hdistinct hrules habove hfield =>
    obtain ⟨name, hcompile⟩ := compile_named hname styles
    have hfresh := repeatedName?_eq_none_iff.2 ⟨fun _ _ => List.not_mem_nil, hdistinct⟩
    have hfailed : (d.compileRules name (styles.declare d.styles) 0 d.rules).result =
        .error (.missingField rule.name field) := by
      rw [hrules]
      exact compileRules_incomplete habove hfield
    rw [hcompile, if_neg (Nat.not_lt.2 hcount), hfresh]
    simp only [assemble, hfailed]

theorem compile_of_wellFormed (hd : d.WellFormed) (styles : StyleTable) :
    ∃ g, (d.compile styles).result = .ok g ∧ d.Linked g := by
  obtain ⟨name, hcompile⟩ := compile_named hd.named styles
  have hfresh := repeatedName?_eq_none_iff.2 ⟨fun _ _ => List.not_mem_nil, hd.distinct⟩
  have hcompiled : ∃ rules, (d.compileRules name (styles.declare d.styles) 0 d.rules).result = .ok rules ∧
      d.HasLinks rules := compileRules_complete hd.complete _ 0
  obtain ⟨rules, hrules, hlinks⟩ := hcompiled
  obtain ⟨g, hbuild, hg⟩ := hlinks.build hd name (d.delimiters.map (·.toDelimiter)) (d.indents.map (·.toPattern))
  refine ⟨g, ?_, hg.linked hd (Grammar.built_of_build hbuild)⟩
  rw [hcompile, if_neg (Nat.not_lt.2 hd.count), hfresh]
  simp only [assemble, hrules, hbuild]

/-- **Exactly the well-formed definitions compile, and their rules are linked as written.** A definition that does not
compile is refused for the first of its faults, and never because the compiled rules make no grammar. -/
theorem compile_exact (d : GrammarDefinition) (styles : StyleTable) :
    (∀ error, (d.compile styles).result = .error error ↔ d.Refused error) ∧
    ((∃ g, (d.compile styles).result = .ok g ∧ d.Linked g) ↔ d.WellFormed) ∧
    ∀ error, (d.compile styles).result ≠ .error (.rejected error) := by
  have hrefused : ∀ error, (d.compile styles).result = .error error ↔ d.Refused error := by
    refine fun error => ⟨fun hresult => ?_, fun h => compile_of_refused h styles⟩
    rcases d.refused_or_wellFormed with ⟨other, hother⟩ | hd
    · rw [compile_of_refused hother styles] at hresult
      cases hresult
      exact hother
    · obtain ⟨g, hg, -⟩ := compile_of_wellFormed hd styles
      rw [hg] at hresult
      cases hresult
  refine ⟨hrefused, ⟨?_, fun hd => compile_of_wellFormed hd styles⟩, fun error h => ?_⟩
  · rintro ⟨g, hg, -⟩
    refine d.refused_or_wellFormed.resolve_left ?_
    rintro ⟨error, herror⟩
    rw [compile_of_refused herror styles] at hg
    cases hg
  · cases (hrefused _).1 h

end GrammarDefinition

end Linewise
