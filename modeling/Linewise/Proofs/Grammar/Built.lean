/-
Grammars that were built, and masks of their rules.

The ids of a built grammar are single bits, each of one rule (`Built.single`, `Built.eq_of_id`), so a union of their
bits holds exactly the rules that were put into it (`RuleMask.contains_insertAll`), and each rule takes the list that was
filled for it: its children are the rules that have it as their parent, in order (`Built.children_eq`).
-/
import Mathlib.Data.List.Nodup
import Mathlib.Data.Nat.Bitwise
import Mathlib.Tactic.SplitIfs
import Linewise.Grammar.Basic

namespace Linewise

/-! ## Masks -/

namespace RuleId

variable {id other : RuleId}

theorem isSingle_iff : id.isSingle = true ↔ ∃ index < capacity, ofIndex index = id := by
  rw [isSingle, index?, List.find?_isSome]
  simp

theorem ofIndex_bits {index : Nat} (h : index < capacity) : (ofIndex index).bits.toNat = 2 ^ index := by
  have h64 : index < 64 := h
  have hindex : index.toUInt64.toNat = index := by
    rw [Nat.toUInt64_eq, UInt64.toNat_ofNat']
    exact Nat.mod_eq_of_lt (by omega)
  rw [ofIndex, UInt64.toNat_shiftLeft, hindex, Nat.mod_eq_of_lt h64, UInt64.toNat_one, Nat.one_shiftLeft]
  exact Nat.mod_eq_of_lt (Nat.pow_lt_pow_right (by omega) h64)

theorem ofIndex_inj {i j : Nat} (hi : i < capacity) (hj : j < capacity) (h : ofIndex i = ofIndex j) : i = j := by
  have hbits := congrArg (fun id => id.bits.toNat) h
  simp only [ofIndex_bits hi, ofIndex_bits hj] at hbits
  exact Nat.pow_right_injective (Nat.le_refl 2) hbits

theorem ne_none_of_isSingle (h : id.isSingle = true) : id ≠ none := by
  obtain ⟨index, hindex, rfl⟩ := isSingle_iff.1 h
  intro hnone
  have hbits := ofIndex_bits hindex
  rw [hnone] at hbits
  exact absurd hbits (Nat.ne_of_lt (Nat.two_pow_pos index))

end RuleId

namespace RuleMask

variable {mask : RuleMask} {id : RuleId}

theorem contains_ofIndex (mask : RuleMask) {index : Nat} (h : index < RuleId.capacity) :
    mask.contains (.ofIndex index) = mask.bits.toNat.testBit index := by
  have hsingle : (RuleId.ofIndex index).isSingle = true := RuleId.isSingle_iff.2 ⟨index, h, rfl⟩
  have hsome : (RuleId.ofIndex index).isNone = false :=
    Bool.eq_false_iff.2 fun hnone => RuleId.ne_none_of_isSingle hsingle (RuleId.isNone_iff.1 hnone)
  rw [contains, hsome, Bool.not_false, Bool.true_and, Bool.eq_iff_iff, beq_iff_eq, ← UInt64.toNat_inj, UInt64.toNat_and,
    RuleId.ofIndex_bits h, Nat.and_two_pow]
  cases mask.bits.toNat.testBit index with
  | false => simpa using (Nat.two_pow_pos index).ne
  | true => simp

theorem contains_insert (mask : RuleMask) {id other : RuleId} (hid : id.isSingle = true) (hother : other.isSingle = true) :
    (mask.insert other).contains id = (mask.contains id || decide (other = id)) := by
  obtain ⟨i, hi, rfl⟩ := RuleId.isSingle_iff.1 hid
  obtain ⟨j, hj, rfl⟩ := RuleId.isSingle_iff.1 hother
  have hsame : RuleId.ofIndex j = RuleId.ofIndex i ↔ j = i := ⟨RuleId.ofIndex_inj hj hi, fun h => by rw [h]⟩
  rw [contains_ofIndex _ hi, contains_ofIndex _ hi, insert, UInt64.toNat_or, Nat.testBit_or, RuleId.ofIndex_bits hj,
    Nat.testBit_two_pow]
  simp only [hsame]

/-- **A mask holds exactly the rules that were put into it.** -/
theorem contains_insertAll (mask : RuleMask) {id : RuleId} {ids : List RuleId} (hid : id.isSingle = true)
    (hids : ∀ other ∈ ids, other.isSingle = true) :
    (ids.foldl insert mask).contains id = true ↔ mask.contains id = true ∨ id ∈ ids := by
  induction ids generalizing mask with
  | nil => simp
  | cons other ids ih =>
    obtain ⟨hother, hids⟩ := List.forall_mem_cons.1 hids
    rw [List.foldl_cons, ih _ hids, contains_insert mask hid hother, Bool.or_eq_true, decide_eq_true_eq, List.mem_cons,
      or_assoc, eq_comm (a := other)]

theorem contains_empty (id : RuleId) : empty.contains id = false := by
  simp only [contains, empty, RuleId.isNone, UInt64.zero_and, Bool.and_eq_false_imp, Bool.not_eq_true', beq_eq_false_iff_ne]
  exact fun h h' => h h'.symm

end RuleMask

/-! ## Built grammars -/

namespace Grammar

variable {g : Grammar} {rule other : Rule}

/-- the grammar was built of some rules -/
def Built (g : Grammar) : Prop := ∃ rules, build g.name rules g.delimiters g.indents = .ok g

theorem idError?_eq_none {used : List RuleId} {rules : List Rule} (h : idError? used rules = none) :
    (∀ rule ∈ rules, rule.id.isSingle = true ∧ rule.id ∉ used) ∧ (rules.map (·.id)).Nodup := by
  induction rules generalizing used with
  | nil => exact ⟨fun _ hr => absurd hr List.not_mem_nil, List.nodup_nil⟩
  | cons rule rules ih =>
    rw [idError?] at h
    split_ifs at h with hsingle hused
    obtain ⟨hrules, hnodup⟩ := ih h
    refine ⟨List.forall_mem_cons.2 ⟨⟨by simpa using hsingle, by simpa using hused⟩, ?_⟩, List.nodup_cons.2 ⟨?_, hnodup⟩⟩
    · intro other hother
      exact ⟨(hrules other hother).1, fun hin => (hrules other hother).2 (List.mem_cons_of_mem _ hin)⟩
    · intro hin
      obtain ⟨other, hother, hsame⟩ := List.mem_map.1 hin
      exact (hrules other hother).2 (hsame ▸ List.mem_cons_self)

theorem idError?_of_distinct {used : List RuleId} {rules : List Rule}
    (hrules : ∀ rule ∈ rules, rule.id.isSingle = true ∧ rule.id ∉ used) (hnodup : (rules.map (·.id)).Nodup) :
    idError? used rules = none := by
  induction rules generalizing used with
  | nil => rfl
  | cons rule rules ih =>
    obtain ⟨⟨hsingle, hused⟩, hrules⟩ := List.forall_mem_cons.1 hrules
    obtain ⟨hfirst, hnodup⟩ := List.nodup_cons.1 hnodup
    rw [idError?, if_neg (by simp [hsingle]), if_neg (by simpa using hused)]
    refine ih (fun other hother => ⟨(hrules other hother).1, fun hin => ?_⟩) hnodup
    rcases List.mem_cons.1 hin with hsame | hin
    · exact hfirst (List.mem_map.2 ⟨other, hother, hsame⟩)
    · exact (hrules other hother).2 hin

theorem adopt_id (rules : List Rule) (rule : Rule) : (adopt rules rule).id = rule.id := by
  unfold adopt
  split_ifs <;> rfl

/-! ## Lists of children -/

section Children

variable {table : List (RuleId × List RuleId)} {rules : List Rule} {id taken : RuleId}

/-- the rules, each with those that have it as their parent -/
def linkChildren (rules : List Rule) : List Rule :=
  rules.map fun rule => { rule with children := (rules.filter fun child => child.parent == rule.id).map (·.id) }

/-- a rule goes on the list of its parent and on no other one -/
theorem lookup_pushChild (table : List (RuleId × List RuleId)) (rule : Rule) (hid : id ≠ .none) :
    ((pushChild table rule).lookup id).getD [] =
      (table.lookup id).getD [] ++ if rule.parent == id then [rule.id] else [] := by
  unfold pushChild
  by_cases hnone : rule.parent.isNone = true
  · have hother : ¬ (rule.parent == id) = true := by
      rw [beq_iff_eq, RuleId.isNone_iff.1 hnone]
      exact hid.symm
    rw [if_pos hnone, if_neg hother, List.append_nil]
  · rw [if_neg hnone, List.lookup_cons]
    by_cases hparent : rule.parent = id
    · simp [hparent]
    · simp [hparent, beq_eq_false_iff_ne.2 (Ne.symm hparent)]

/-- **The lists are filled in the order of the rules**, each with the rules that have its rule as their parent. -/
theorem lookup_pushChildren (table : List (RuleId × List RuleId)) (rules : List Rule) (hid : id ≠ .none) :
    ((rules.foldl pushChild table).lookup id).getD [] =
      (table.lookup id).getD [] ++ (rules.filter fun child => child.parent == id).map (·.id) := by
  induction rules generalizing table with
  | nil => simp
  | cons rule rules ih =>
    rw [List.foldl_cons, ih, lookup_pushChild table rule hid, List.append_assoc, List.filter_cons]
    split_ifs <;> rfl

theorem lookup_of_ne_taken (table : List (RuleId × List RuleId)) (h : id ≠ taken) :
    (table.filter fun (other, _) => other != taken).lookup id = table.lookup id := by
  induction table with
  | nil => rfl
  | cons entry table ih =>
    obtain ⟨key, ids⟩ := entry
    by_cases hkey : key = taken
    · subst hkey
      rw [List.filter_cons_of_neg (by simp), ih, List.lookup_cons, beq_false_of_ne h]
    · rw [List.filter_cons_of_pos (by simpa using hkey), List.lookup_cons, List.lookup_cons, ih]

/-- as no two rules have one id, no rule takes the list of another one -/
theorem takeChildren_eq (hnodup : (rules.map (·.id)).Nodup) (table : List (RuleId × List RuleId)) :
    takeChildren table rules = rules.map fun rule => { rule with children := (table.lookup rule.id).getD [] } := by
  induction rules generalizing table with
  | nil => rfl
  | cons rule rules ih =>
    obtain ⟨hfirst, hnodup⟩ := List.nodup_cons.1 hnodup
    rw [takeChildren, ih hnodup, List.map_cons]
    congr 1
    refine List.map_congr_left fun other hother => ?_
    have hne : other.id ≠ rule.id := fun hsame => hfirst (List.mem_map.2 ⟨other, hother, hsame⟩)
    rw [lookup_of_ne_taken table hne]

/-- **Filling the lists and taking them links each rule with its children.** -/
theorem takeChildren_pushChild (hsingle : ∀ rule ∈ rules, rule.id.isSingle = true) (hnodup : (rules.map (·.id)).Nodup) :
    takeChildren (rules.foldl pushChild []) rules = linkChildren rules := by
  rw [takeChildren_eq hnodup, linkChildren]
  refine List.map_congr_left fun rule hrule => ?_
  rw [lookup_pushChildren [] rules (RuleId.ne_none_of_isSingle (hsingle rule hrule))]
  rfl

end Children

/-- a grammar is built of rules with distinct single bits; only their parents may change, and they get their children -/
theorem rules_of_build {name : String} {rules : List Rule} {delimiters : List Delimiter} {indents : List IndentPattern}
    (h : build name rules delimiters indents = .ok g) :
    idError? [] rules = none ∧ g.rules = linkChildren (rules.map (adopt rules)) := by
  unfold build at h
  split_ifs at h
  cases herror : idError? [] rules with
  | some error =>
    rw [herror] at h
    cases h
  | none =>
    rw [herror] at h
    obtain ⟨hsingle, hnodup⟩ := idError?_eq_none herror
    have hids : (rules.map (adopt rules)).map (·.id) = rules.map (·.id) := by
      rw [List.map_map]
      exact List.map_congr_left fun rule _ => adopt_id rules rule
    have hadopted : ∀ rule ∈ rules.map (adopt rules), rule.id.isSingle = true := by
      intro rule hrule
      obtain ⟨given, hgiven, rfl⟩ := List.mem_map.1 hrule
      rw [adopt_id]
      exact (hsingle given hgiven).1
    refine ⟨rfl, ?_⟩
    rw [← takeChildren_pushChild hadopted (hids ▸ hnodup)]
    exact (congrArg Grammar.rules (Except.ok.inj h)).symm

theorem built_of_build {name : String} {rules : List Rule} {delimiters : List Delimiter} {indents : List IndentPattern}
    (h : build name rules delimiters indents = .ok g) : g.Built := by
  refine ⟨rules, ?_⟩
  have hg := h
  unfold build at hg
  split_ifs at hg
  split at hg
  · cases hg
  · cases hg
    exact h

theorem Built.ids (h : g.Built) : (∀ rule ∈ g.rules, rule.id.isSingle = true) ∧ (g.rules.map (·.id)).Nodup := by
  obtain ⟨rules, hbuild⟩ := h
  obtain ⟨herror, hrules⟩ := rules_of_build hbuild
  obtain ⟨hsingle, hnodup⟩ := idError?_eq_none herror
  have hids : g.rules.map (·.id) = rules.map (·.id) := by
    rw [hrules, linkChildren, List.map_map, List.map_map]
    exact List.map_congr_left fun rule _ => adopt_id rules rule
  refine ⟨?_, hids ▸ hnodup⟩
  intro rule hrule
  have hid : rule.id ∈ rules.map (·.id) := hids ▸ List.mem_map_of_mem hrule
  obtain ⟨other, hother, hsame⟩ := List.mem_map.1 hid
  exact hsame ▸ (hsingle other hother).1

theorem Built.single (h : g.Built) (hrule : rule ∈ g.rules) : rule.id.isSingle = true := h.ids.1 rule hrule

theorem Built.id_ne_none (h : g.Built) (hrule : rule ∈ g.rules) : rule.id ≠ .none :=
  RuleId.ne_none_of_isSingle (h.single hrule)

/-- a rule is known by its id -/
theorem Built.eq_of_id (h : g.Built) (hrule : rule ∈ g.rules) (hother : other ∈ g.rules) (hid : rule.id = other.id) :
    rule = other := List.inj_on_of_nodup_map h.ids.2 hrule hother hid

theorem Built.rule?_eq (hg : g.Built) (hrule : rule ∈ g.rules) : g.rule? rule.id = some rule := by
  have hsome : (g.rule? rule.id).isSome = true := List.find?_isSome.2 ⟨rule, hrule, beq_self_eq_true rule.id⟩
  obtain ⟨other, hother⟩ := Option.isSome_iff_exists.1 hsome
  have hid : other.id = rule.id := by simpa using List.find?_some hother
  rw [hother, hg.eq_of_id (List.mem_of_find?_eq_some hother) hrule hid]

/-- **The children of a rule are the rules that have it as their parent**, in order. -/
theorem Built.children_eq (hg : g.Built) (hrule : rule ∈ g.rules) :
    g.children rule.id = g.rules.filter fun child => child.parent == rule.id := by
  obtain ⟨given, hbuild⟩ := id hg
  obtain ⟨-, hrules⟩ := rules_of_build hbuild
  generalize given.map (adopt given) = adopted at hrules
  have hchildren : rule.children = (g.rules.filter fun child => child.parent == rule.id).map (·.id) := by
    rw [hrules] at hrule ⊢
    obtain ⟨before, -, rfl⟩ := List.mem_map.1 hrule
    rw [linkChildren, List.filter_map, List.map_map]
    rfl
  rw [children, hg.rule?_eq hrule, Option.elim_some, hchildren, List.filterMap_map]
  -- an id on the list is that of a rule of the grammar, and found again
  have hfound : ∀ child ∈ g.rules.filter fun child => child.parent == rule.id,
      (g.rule? ∘ fun child => child.id) child = some child :=
    fun child hchild => hg.rule?_eq (List.mem_of_mem_filter hchild)
  rw [List.filterMap_congr hfound, List.filterMap_some]

theorem Built.mem_children (hg : g.Built) (hrule : rule ∈ g.rules) :
    other ∈ g.children rule.id ↔ other ∈ g.rules ∧ other.parent = rule.id := by
  rw [hg.children_eq hrule, List.mem_filter, beq_iff_eq]

/-- children are rules, also where a grammar was not built -/
theorem mem_of_mem_children {id : RuleId} (h : other ∈ g.children id) : other ∈ g.rules := by
  obtain ⟨child, -, hchild⟩ := List.mem_filterMap.1 h
  exact List.mem_of_find?_eq_some hchild

theorem mem_topLevel : rule ∈ g.topLevel ↔ rule ∈ g.rules ∧ rule.parent = .none := by
  rw [topLevel, List.mem_filter, Rule.isTopLevel, RuleId.isNone_iff]

end Grammar

end Linewise
