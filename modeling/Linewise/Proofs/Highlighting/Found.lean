/-
The matches that the analysis of a line comes upon, one inside the other.

`Grammar.Found` says it without a bound on the depth: a match of the range open when the line begins, a match of a rule
without a parent in the line, or a match of a rule inside a match of its parent. A rule that is found has a level, the
number of its ancestors (`Found.level`); a rule has one level only (`Level.unique`), so no rule is twice on a chain of
children (`Descent.nodup`), and levels stay below the number of rules (`Level.lt_length`). So the bound on the depth leaves
out nothing: the candidates of a line are the regions of the matches found (`mem_candidates_iff_found`).

The text of a match stands in the line at the place of its region (`Found.sliceAt`).
-/
import Mathlib.Data.List.Perm.Subperm
import Linewise.Proofs.Highlighting.Candidates

namespace Linewise

open Regex

/-! ## Parts of a text -/

/-- the part of the text that begins at byte `position` and is as long as `inner` is `inner` -/
def Text.SliceAt (text : Text) (position : Nat) (inner : Text) : Prop :=
  ∃ front back, text = front ++ inner ++ back ∧ width front = position

theorem Text.SliceAt.trans {text inner deep : Text} {p q : Nat} (h : SliceAt text p inner) (h' : SliceAt inner q deep) :
    SliceAt text (p + q) deep := by
  obtain ⟨front, back, rfl, rfl⟩ := h
  obtain ⟨front', back', rfl, rfl⟩ := h'
  exact ⟨front ++ front', back' ++ back, by simp, width_append front front'⟩

theorem Text.SliceAt.width_le {text inner : Text} {p : Nat} (h : SliceAt text p inner) : p + width inner ≤ width text := by
  obtain ⟨front, back, rfl, rfl⟩ := h
  rw [width_append, width_append]
  omega

namespace Regex

namespace Hit

variable {hit : Hit} {text : Text}

/-- what is matched stands in the text where the match begins -/
theorem sliceAt (hstart : hit.start ∈ (Cursor.start text).places) (hstop : hit.stop ∈ hit.start.places) :
    Text.SliceAt text hit.start.offset hit.text := by
  obtain ⟨front, hfront, hoffset⟩ := Cursor.rest_eq_append hstart
  refine ⟨front, hit.stop.rest, ?_, by rw [← hoffset]; exact (Nat.zero_add _).symm⟩
  rw [List.append_assoc, ← (rest_eq_text_append hstop).1]
  exact hfront

theorem isEmpty_of_proper (h : hit.Proper) : hit.isEmpty = false := by
  simpa [isEmpty] using Nat.ne_of_lt h.lt

end Hit

end Regex

/-- the match of a range that was open when the text began lies in the text -/
theorem Rule.resumed_proper {rule : Rule} {text : Text} {hit : Hit} (hspan : rule.spansLines = true)
    (hvalid : rule.isValid = true) (h : hit ∈ (rule.resumed text).hits) (hne : hit.isEmpty = false) :
    hit.start ∈ (Cursor.start text).places ∧ hit.Proper := by
  obtain ⟨closing, -, hresumed⟩ := resumed_eq hspan hvalid text
  rw [hresumed, List.mem_singleton] at h
  have hstop : hit.stop ∈ hit.start.places := by
    rw [h]
    cases hlast : closing.find? (.start text) with
    | none => exact Cursor.toEnd_mem _
    | some last =>
      obtain ⟨hstart, -, hstop⟩ := Expr.find?_some hlast
      exact Cursor.places_trans hstart hstop
  have hdiffer : hit.start.offset ≠ hit.stop.offset := by simpa [Hit.isEmpty] using hne
  refine ⟨?_, hstop, Nat.lt_of_le_of_ne (Cursor.offset_le hstop) hdiffer⟩
  rw [h]
  exact Cursor.mem_places_self _

/-- the region of a match of a rule in a text that begins at byte `base` of the line -/
def Region.ofMatch (rule : Rule) (base : Nat) (hit : Hit) : Region :=
  .ofRule rule (base + hit.start.offset) (hit.stop.offset - hit.start.offset)

theorem Region.stop_ofMatch {rule : Rule} {base : Nat} {hit : Hit} (h : hit.stop ∈ hit.start.places) :
    (ofMatch rule base hit).stop = base + hit.start.offset + Text.width hit.text := by
  have hwidth := (Hit.rest_eq_text_append h).2
  simp only [ofMatch, ofRule, stop]
  omega

namespace Grammar

variable {g : Grammar} {line : Text} {incoming : RuleId} {rule child : Rule} {base : Nat} {hit : Hit} {r : Region}

/-! ## Levels -/

/-- the rule has so many ancestors, the last of which has no parent -/
inductive Level (g : Grammar) : Rule → Nat → Prop
  | top {rule : Rule} : rule ∈ g.topLevel → Level g rule 0
  | child {rule child : Rule} {n : Nat} : Level g rule n → child ∈ g.children rule.id → Level g child (n + 1)

theorem Level.mem {n : Nat} (h : g.Level rule n) : rule ∈ g.rules := by
  cases h with
  | top hrule => exact (mem_topLevel.1 hrule).1
  | child _ hchild => exact mem_of_mem_children hchild

/-- the parent of a rule at a deeper level is the rule that it is a child of -/
theorem Level.parent_eq (hg : g.Built) {n : Nat} (h : g.Level rule n) (hchild : child ∈ g.children rule.id) :
    child.parent = rule.id := ((hg.mem_children h.mem).1 hchild).2

/-- **A rule has one level only.** -/
theorem Level.unique (hg : g.Built) {n m : Nat} (h : g.Level rule n) (h' : g.Level rule m) : n = m := by
  induction h generalizing m with
  | top hrule =>
    cases h' with
    | top _ => rfl
    | child houter hchild =>
      have hparent := (mem_topLevel.1 hrule).2
      exact absurd ((houter.parent_eq hg hchild).symm.trans hparent) (hg.id_ne_none houter.mem)
  | child houter hchild ih =>
    cases h' with
    | top hrule =>
      have hparent := (mem_topLevel.1 hrule).2
      exact absurd ((houter.parent_eq hg hchild).symm.trans hparent) (hg.id_ne_none houter.mem)
    | child houter' hchild' =>
      have hid := (houter.parent_eq hg hchild).symm.trans (houter'.parent_eq hg hchild')
      have hsame := hg.eq_of_id houter.mem houter'.mem hid
      rw [ih (hsame ▸ houter')]

/-- a rule, its parent, the parent of that and so on, up to a rule without a parent -/
inductive Descent (g : Grammar) : List Rule → Prop
  | top {rule : Rule} : rule ∈ g.topLevel → Descent g [rule]
  | child {rule child : Rule} {above : List Rule} : Descent g (rule :: above) → child ∈ g.children rule.id →
      Descent g (child :: rule :: above)

theorem Descent.level {above : List Rule} (h : g.Descent (rule :: above)) : g.Level rule above.length := by
  induction above generalizing rule with
  | nil =>
    cases h with
    | top hrule => exact .top hrule
  | cons parent above ih =>
    cases h with
    | child hparent hchild => exact .child (ih hparent) hchild

theorem Level.exists_descent {n : Nat} (h : g.Level rule n) : ∃ above, above.length = n ∧ g.Descent (rule :: above) := by
  induction h with
  | top hrule => exact ⟨[], rfl, .top hrule⟩
  | child _ hchild ih =>
    obtain ⟨above, hlength, hdescent⟩ := ih
    exact ⟨_ :: above, congrArg (· + 1) hlength, .child hdescent hchild⟩

/-- the levels of the rules on a chain are less than its length -/
theorem Descent.level_of_mem {chain : List Rule} (h : g.Descent chain) (hrule : rule ∈ chain) :
    ∃ m < chain.length, g.Level rule m := by
  induction h with
  | top htop =>
    rw [List.mem_singleton.1 hrule]
    exact ⟨0, Nat.one_pos, .top htop⟩
  | child hparent hchild ih =>
    rcases List.mem_cons.1 hrule with rfl | hrule
    · exact ⟨_, Nat.lt_succ_self _, (hparent.child hchild).level⟩
    · obtain ⟨m, hm, hlevel⟩ := ih hrule
      exact ⟨m, Nat.lt_succ_of_lt hm, hlevel⟩

/-- **No rule is twice on a chain.** -/
theorem Descent.nodup {chain : List Rule} (hg : g.Built) (h : g.Descent chain) : chain.Nodup := by
  induction h with
  | top => exact List.nodup_singleton _
  | child hparent hchild ih =>
    refine List.nodup_cons.2 ⟨fun hmem => ?_, ih⟩
    obtain ⟨m, hm, hlevel⟩ := hparent.level_of_mem hmem
    exact absurd (hlevel.unique hg (hparent.child hchild).level) (Nat.ne_of_lt hm)

/-- **A chain is no longer than there are rules.** -/
theorem Descent.length_le {chain : List Rule} (hg : g.Built) (h : g.Descent chain) : chain.length ≤ g.rules.length := by
  have hsub : chain ⊆ g.rules := fun other hother => (h.level_of_mem hother).choose_spec.2.mem
  exact ((h.nodup hg).subperm hsub).length_le

/-- levels stay below the number of rules -/
theorem Level.lt_length (hg : g.Built) {n : Nat} (h : g.Level rule n) : n < g.rules.length := by
  obtain ⟨above, rfl, hdescent⟩ := h.exists_descent
  exact hdescent.length_le hg

/-! ## Matches -/

/-- the analysis of a line comes upon a match of a rule, in a text that begins at byte `base` of the line -/
inductive Found (g : Grammar) (line : Text) (incoming : RuleId) : Rule → Nat → Hit → Prop
  | resumed {rule : Rule} {hit : Hit} : g.carried? incoming = some rule → hit ∈ (rule.resumed line).hits →
      hit.isEmpty = false → Found g line incoming rule 0 hit
  | scanned {rule : Rule} {hit : Hit} : g.openUntil line incoming ≠ none → rule ∈ g.topLevel →
      hit ∈ (rule.occurrences line).hits → Found g line incoming rule 0 hit
  | nested {rule child : Rule} {base : Nat} {hit inner : Hit} : Found g line incoming rule base hit →
      child ∈ g.children rule.id → inner ∈ (child.occurrences hit.text).hits →
      Found g line incoming child (base + hit.start.offset) inner

theorem Found.level (h : g.Found line incoming rule base hit) : ∃ n, g.Level rule n := by
  induction h with
  | resumed hcarried _ _ => exact ⟨0, .top (carried?_some hcarried).1⟩
  | scanned _ hrule _ => exact ⟨0, .top hrule⟩
  | nested _ hchild _ ih =>
    obtain ⟨n, hlevel⟩ := ih
    exact ⟨n + 1, .child hlevel hchild⟩

theorem Found.mem (h : g.Found line incoming rule base hit) : rule ∈ g.rules := by
  obtain ⟨n, hlevel⟩ := h.level
  exact hlevel.mem

/-- **What is matched stands in the line at the place of its region**, and is not empty. The texts searched are parts of
one another, so their places add up. -/
theorem Found.sliceAt (h : g.Found line incoming rule base hit) :
    Text.SliceAt line (base + hit.start.offset) hit.text ∧ hit.Proper := by
  induction h with
  | resumed hcarried hhit hne =>
    obtain ⟨-, -, hspan, hvalid⟩ := carried?_some hcarried
    obtain ⟨hstart, hproper⟩ := Rule.resumed_proper hspan hvalid hhit hne
    rw [Nat.zero_add]
    exact ⟨Hit.sliceAt hstart hproper.stop_mem, hproper⟩
  | scanned _ _ hhit =>
    obtain ⟨hstart, hproper⟩ := Rule.occurrences_proper hhit
    rw [Nat.zero_add]
    exact ⟨Hit.sliceAt hstart hproper.stop_mem, hproper⟩
  | nested _ _ hinner ih =>
    obtain ⟨hstart, hproper⟩ := Rule.occurrences_proper hinner
    exact ⟨ih.1.trans (Hit.sliceAt hstart hproper.stop_mem), hproper⟩

/-! ## Candidates -/

theorem mem_candidates_cases : r ∈ g.candidates line incoming ↔
    (∃ rule, g.carried? incoming = some rule ∧ r ∈ g.lineRegions rule (rule.resumed line)) ∨
      (g.openUntil line incoming ≠ none ∧ r ∈ g.scanned line) := by
  rw [candidates, openUntil]
  cases hcarried : g.carried? incoming with
  | none => simp
  | some rule =>
    obtain ⟨-, -, hspan, hvalid⟩ := carried?_some hcarried
    obtain ⟨closing, hclosing, hresumed⟩ := Rule.resumed_eq hspan hvalid line
    have hopen : (rule.resumed line).isOpen = (closing.find? (.start line)).isNone := by rw [hresumed]
    simp only [hopen, hclosing, Option.bind_some, Option.some.injEq, exists_eq_left']
    cases closing.find? (.start line) with
    | none => simp
    | some last => simp

theorem found_of_mem_regions {depth : Nat} {hits : List Hit}
    (hhits : ∀ hit ∈ hits, hit.isEmpty = false → g.Found line incoming rule base hit) (h : r ∈ g.regions depth rule base hits) :
    ∃ rule base hit, g.Found line incoming rule base hit ∧ r = .ofMatch rule base hit := by
  induction depth generalizing rule base hits with
  | zero =>
    rw [regions] at h
    obtain ⟨hit, hhit, h⟩ := List.mem_flatMap.1 h
    split_ifs at h with hempty
    · cases h
    · exact ⟨rule, base, hit, hhits hit hhit (by simpa using hempty), List.mem_singleton.1 h⟩
  | succ depth ih =>
    rw [regions] at h
    obtain ⟨hit, hhit, h⟩ := List.mem_flatMap.1 h
    split_ifs at h with hempty
    · cases h
    · have hfound := hhits hit hhit (by simpa using hempty)
      rcases List.mem_cons.1 h with rfl | h
      · exact ⟨rule, base, hit, hfound, rfl⟩
      · obtain ⟨child, hchild, h⟩ := List.mem_flatMap.1 h
        exact ih (fun inner hinner _ => hfound.nested hchild hinner) h

/-- a match found is searched as deep as there are levels below it -/
theorem Found.regions_subset (hg : g.Built) {n : Nat} (h : g.Found line incoming rule base hit) (hlevel : g.Level rule n) :
    ∀ r ∈ g.regions (g.rules.length - n) rule base [hit], r ∈ g.candidates line incoming := by
  have hsingle : ∀ {depth : Nat} {rule : Rule} {base : Nat} {hit : Hit} {hits : List Hit}, hit ∈ hits →
      ∀ r ∈ g.regions depth rule base [hit], r ∈ g.regions depth rule base hits := by
    intro depth rule base hit hits hhit r hr
    rw [regions, List.mem_flatMap] at hr ⊢
    obtain ⟨other, hother, hr⟩ := hr
    exact ⟨hit, hhit, List.mem_singleton.1 hother ▸ hr⟩
  induction h generalizing n with
  | resumed hcarried hhit _ =>
    obtain rfl := hlevel.unique hg (.top (carried?_some hcarried).1)
    intro r hr
    exact mem_candidates_cases.2 (Or.inl ⟨_, hcarried, hsingle hhit r hr⟩)
  | scanned hopen hrule hhit =>
    obtain rfl := hlevel.unique hg (.top hrule)
    intro r hr
    exact mem_candidates_cases.2 (Or.inr ⟨hopen, List.mem_flatMap.2 ⟨_, hrule, hsingle hhit r hr⟩⟩)
  | @nested rule child base hit inner houter hchild hinner ih =>
    obtain ⟨m, houter'⟩ := houter.level
    obtain rfl := hlevel.unique hg (.child houter' hchild)
    intro r hr
    refine ih houter' r ?_
    -- there is a level left for what is inside the match
    have hdepth : g.rules.length - m = g.rules.length - (m + 1) + 1 := by
      have hlt := houter'.lt_length hg
      omega
    rw [hdepth, regions, List.flatMap_singleton, if_neg (by simp [Hit.isEmpty_of_proper houter.sliceAt.2])]
    exact List.mem_cons_of_mem _ (List.mem_flatMap.2 ⟨child, hchild, hsingle hinner r hr⟩)

/-- **The candidates of a line are the regions of the matches found**, at whatever depth. -/
theorem mem_candidates_iff_found (hg : g.Built) : r ∈ g.candidates line incoming ↔
    ∃ rule base hit, g.Found line incoming rule base hit ∧ r = .ofMatch rule base hit := by
  constructor
  · intro h
    rcases mem_candidates_cases.1 h with ⟨rule, hcarried, h⟩ | ⟨hopen, h⟩
    · exact found_of_mem_regions (fun hit hhit hne => .resumed hcarried hhit hne) h
    · obtain ⟨rule, hrule, h⟩ := List.mem_flatMap.1 h
      exact found_of_mem_regions (fun hit hhit _ => .scanned hopen hrule hhit) h
  · rintro ⟨rule, base, hit, hfound, rfl⟩
    obtain ⟨n, hlevel⟩ := hfound.level
    refine hfound.regions_subset hg hlevel _ ?_
    exact g.ofRule_mem_regions _ base rule (List.mem_singleton_self hit) (Hit.isEmpty_of_proper hfound.sliceAt.2)

end Grammar

end Linewise
