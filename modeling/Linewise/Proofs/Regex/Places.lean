/-
The places of a text, and that matches end at them.

`Cursor.places` lists the places at and after a given one, from left to right. Byte offsets grow strictly along the
list, so an offset determines the place (`eq_of_offset`), and of two places the one further right is among the places
of the other (`mem_places_of_le`).

Main statement: `Expr.ends_places`, a match ends at or after the place where it begins, by induction on the
expression. The constructions that make up a repetition only ever apply their body, so what holds of a place and is
kept by the body holds of all that they list.
-/
import Mathlib.Data.List.Basic
import Mathlib.Tactic.SplitIfs
import Linewise.Regex.Search

namespace Linewise.Regex

namespace Cursor

variable {c d e : Cursor} {x : Char} {rest text : Text}

/-- the places from one with the given offset and character before it to the end of the text -/
def placesFrom (offset : Nat) (before : Option Char) : Text → List Cursor
  | [] => [⟨offset, before, []⟩]
  | x :: rest => ⟨offset, before, x :: rest⟩ :: placesFrom (offset + x.utf8Size) (some x) rest

/-- the place and all after it, in order -/
def places (c : Cursor) : List Cursor := placesFrom c.offset c.before c.rest

/-- the place of a text at a byte offset, if that is a character boundary -/
def at? (text : Text) (offset : Nat) : Option Cursor := (start text).places.find? (·.offset == offset)

theorem places_of_nil (h : c.rest = []) : c.places = [c] := by
  obtain ⟨offset, before, _⟩ := c
  cases h
  rfl

theorem places_of_cons (h : c.rest = x :: rest) : c.places = c :: (c.past x rest).places := by
  obtain ⟨offset, before, _⟩ := c
  cases h
  rfl

/-- what holds where the text ends, and of a place if it holds one character on, holds of every place -/
theorem induct {P : Cursor → Prop} (nil : ∀ c, c.rest = [] → P c)
    (cons : ∀ c x rest, c.rest = x :: rest → P (c.past x rest) → P c) (c : Cursor) : P c := by
  obtain ⟨offset, before, text⟩ := c
  induction text generalizing offset before with
  | nil => exact nil _ rfl
  | cons x rest ih => exact cons _ x rest rfl (ih _ _)

theorem mem_places_self (c : Cursor) : c ∈ c.places := by
  cases h : c.rest with
  | nil => simp [places_of_nil h]
  | cons x rest => simp [places_of_cons h]

/-- what holds of a place, and of an earlier one if it holds one character on, holds of every place before it -/
theorem mem_induct {P : Cursor → Prop} (self : P d)
    (past : ∀ c x rest, c.rest = x :: rest → P (c.past x rest) → P c) (h : d ∈ c.places) : P c := by
  induction c using induct with
  | nil c hc =>
    rw [places_of_nil hc, List.mem_singleton] at h
    exact h ▸ self
  | cons c x rest hc ih =>
    rw [places_of_cons hc, List.mem_cons] at h
    rcases h with rfl | h
    · exact self
    · exact past c x rest hc (ih h)

theorem places_suffix (h : d ∈ c.places) : d.places <:+ c.places := by
  refine mem_induct (P := fun c => d.places <:+ c.places) (List.suffix_refl _) ?_ h
  intro c x rest hc ih
  rw [places_of_cons hc]
  exact ih.trans (List.suffix_cons _ _)

theorem places_trans (h : d ∈ c.places) (h' : e ∈ d.places) : e ∈ c.places := (places_suffix h).subset h'

/-- no byte is lost between two places -/
theorem offset_add_width (h : d ∈ c.places) : d.offset + Text.width d.rest = c.offset + Text.width c.rest := by
  refine mem_induct (P := fun c => d.offset + Text.width d.rest = c.offset + Text.width c.rest) rfl ?_ h
  intro c x rest hc ih
  rw [ih, hc, Text.width_cons]
  exact Nat.add_assoc _ _ _

theorem offset_le (h : d ∈ c.places) : c.offset ≤ d.offset := by
  refine mem_induct (P := fun c => c.offset ≤ d.offset) (Nat.le_refl _) ?_ h
  intro c x rest _ ih
  exact Nat.le_trans (Nat.le_add_right _ _) ih

theorem offset_lt_past (h : d ∈ (c.past x rest).places) : c.offset < d.offset :=
  calc c.offset < c.offset + x.utf8Size := Nat.lt_add_of_pos_right x.utf8Size_pos
    _ ≤ d.offset := offset_le h

theorem places_pairwise (c : Cursor) : c.places.Pairwise (·.offset < ·.offset) := by
  induction c using induct with
  | nil c hc =>
    rw [places_of_nil hc]
    exact List.pairwise_singleton _ _
  | cons c x rest hc ih =>
    rw [places_of_cons hc, List.pairwise_cons]
    exact ⟨fun d hd => offset_lt_past hd, ih⟩

/-- of two places the one further right comes after the other -/
theorem mem_places_of_le (hd : d ∈ c.places) (he : e ∈ c.places) (h : d.offset ≤ e.offset) : e ∈ d.places := by
  induction c using induct with
  | nil c hc =>
    rw [places_of_nil hc, List.mem_singleton] at hd he
    rw [hd, he]
    exact mem_places_self c
  | cons c x rest hc ih =>
    have hplaces := places_of_cons hc
    rw [hplaces, List.mem_cons] at hd
    rcases hd with rfl | hd
    · exact he
    · rw [hplaces, List.mem_cons] at he
      rcases he with rfl | he
      · exact absurd (offset_lt_past hd) (Nat.not_lt.2 h)
      · exact ih hd he

theorem eq_of_offset (hd : d ∈ c.places) (he : e ∈ c.places) (h : d.offset = e.offset) : d = e := by
  have hlater := mem_places_of_le hd he (Nat.le_of_eq h)
  cases hr : d.rest with
  | nil =>
    rw [places_of_nil hr, List.mem_singleton] at hlater
    exact hlater.symm
  | cons x rest =>
    rw [places_of_cons hr, List.mem_cons] at hlater
    rcases hlater with hlater | hlater
    · exact hlater.symm
    · exact absurd h (Nat.ne_of_lt (offset_lt_past hlater))

theorem length_le (h : d ∈ c.places) : d.rest.length ≤ c.rest.length := by
  refine mem_induct (P := fun c => d.rest.length ≤ c.rest.length) (Nat.le_refl _) ?_ h
  intro c x rest hc ih
  rw [hc]
  exact Nat.le_succ_of_le ih

/-- fewer characters stand behind a place further right -/
theorem length_lt_of_offset_lt (h : d ∈ c.places) (hlt : c.offset < d.offset) : d.rest.length < c.rest.length := by
  cases hc : c.rest with
  | nil =>
    rw [places_of_nil hc, List.mem_singleton] at h
    exact absurd hlt (by rw [h]; exact Nat.lt_irrefl _)
  | cons x rest =>
    rw [places_of_cons hc, List.mem_cons] at h
    rcases h with rfl | h
    · exact absurd hlt (Nat.lt_irrefl _)
    · exact Nat.lt_succ_of_le (length_le h)

/-- the text between two places -/
theorem rest_eq_append (h : d ∈ c.places) :
    ∃ between, c.rest = between ++ d.rest ∧ c.offset + Text.width between = d.offset := by
  refine mem_induct (P := fun c => ∃ between, c.rest = between ++ d.rest ∧ c.offset + Text.width between = d.offset)
    ⟨[], rfl, rfl⟩ ?_ h
  rintro c x rest hc ⟨between, hrest, hoffset⟩
  refine ⟨x :: between, ?_, ?_⟩
  · rw [hc, List.cons_append]
    exact congrArg (x :: ·) hrest
  · rw [← hoffset, Text.width_cons, ← Nat.add_assoc]
    rfl

/-- a place that is not the first has a character before it -/
theorem eq_or_before (h : d ∈ c.places) : d = c ∨ ∃ x, d.before = some x := by
  refine mem_induct (P := fun c => d = c ∨ ∃ x, d.before = some x) (.inl rfl) ?_ h
  rintro c x rest - (rfl | hbefore)
  · exact .inr ⟨x, rfl⟩
  · exact .inr hbefore

theorem toEnd_mem (c : Cursor) : c.toEnd ∈ c.places := by
  induction c using induct with
  | nil c hc =>
    have hsame : c.toEnd = c := by
      obtain ⟨offset, before, _⟩ := c
      cases hc
      rfl
    rw [hsame]
    exact mem_places_self c
  | cons c x rest hc ih =>
    have hsame : c.toEnd = (c.past x rest).toEnd := by
      simp only [toEnd, past, hc, Text.width_cons, Nat.add_assoc]
      cases rest with
      | nil => rfl
      | cons y rest => simp [List.getLast?_cons]
    rw [hsame, places_of_cons hc]
    exact List.mem_cons_of_mem _ ih

theorem mem_places_next {next : Cursor} (hnext : c.next? = some next) (h : d ∈ c.places) (hlt : c.offset < d.offset) :
    d ∈ next.places := by
  cases hr : c.rest with
  | nil => simp [next?, hr] at hnext
  | cons x rest =>
    simp only [next?, hr, Option.some.injEq] at hnext
    rw [places_of_cons hr, List.mem_cons, hnext] at h
    rcases h with rfl | h
    · exact absurd hlt (Nat.lt_irrefl _)
    · exact h

theorem next?_mem {next : Cursor} (hnext : c.next? = some next) : next ∈ c.places ∧ c.offset < next.offset := by
  cases hr : c.rest with
  | nil => simp [next?, hr] at hnext
  | cons x rest =>
    simp only [next?, hr, Option.some.injEq] at hnext
    rw [places_of_cons hr, ← hnext]
    exact ⟨List.mem_cons_of_mem _ (mem_places_self _), offset_lt_past (mem_places_self _)⟩

theorem at?_eq_some_iff {offset : Nat} : at? text offset = some c ↔ c ∈ (start text).places ∧ c.offset = offset := by
  rw [at?]
  constructor
  · intro h
    exact ⟨List.mem_of_find?_eq_some h, by simpa using List.find?_some h⟩
  · rintro ⟨hc, rfl⟩
    cases hfind : (start text).places.find? (·.offset == c.offset) with
    | none => exact absurd (List.find?_eq_none.1 hfind c hc) (by simp)
    | some d =>
      rw [eq_of_offset (List.mem_of_find?_eq_some hfind) hc (by simpa using List.find?_some hfind)]

end Cursor

/-! ## Where matches end -/

theorem arrivals_sublist (seen : Nat) (cs : List Cursor) : (arrivals seen cs).Sublist cs := by
  induction cs generalizing seen with
  | nil => exact List.Sublist.refl _
  | cons c cs ih =>
    rw [arrivals]
    split_ifs
    · exact (ih seen).cons c
    · exact (ih _).cons_cons c

section Repetition

variable {P : Cursor → Prop} {body : Cursor → List Cursor} {c : Cursor}

/-- all ends found have a property -/
def Walk.All (P : Cursor → Prop) (w : Walk) : Prop := ∀ d ∈ w.found, P d

theorem Walk.All.stop {w : Walk} (h : w.All P) (hc : P c) : (w.stop c).All P := List.forall_mem_cons.2 ⟨hc, h⟩

theorem Walk.All.enter {w : Walk} (h : w.All P) (c : Cursor) : (w.enter c).All P := h

theorem Walk.All.foldl {f : Walk → Cursor → Walk} (hf : ∀ w next, w.All P → P next → (f w next).All P) {nexts : List Cursor}
    (hnexts : ∀ next ∈ nexts, P next) {w : Walk} (h : w.All P) : (nexts.foldl f w).All P := by
  induction nexts generalizing w with
  | nil => exact h
  | cons next nexts ih =>
    obtain ⟨hnext, hnexts⟩ := List.forall_mem_cons.1 hnexts
    exact ih hnexts (hf w next h hnext)

variable (hbody : ∀ c, P c → ∀ d ∈ body c, P d)
include hbody

theorem Walk.All.rounds (greedy : Bool) (fuel : Nat) {w : Walk} (h : w.All P) (hc : P c) :
    (Walk.rounds body greedy fuel w c).All P := by
  induction fuel generalizing w c with
  | zero => exact h
  | succ fuel ih =>
    have hfurther : ∀ w : Walk, w.All P → ((body c).foldl (fun w next =>
        if next.offset = c.offset then w else Walk.rounds body greedy fuel w next) w).All P := by
      intro w hw
      refine hw.foldl (fun w next hw hnext => ?_) (hbody c hc)
      split_ifs
      · exact hw
      · exact ih hw hnext
    rw [Walk.rounds]
    split_ifs
    · exact h
    · exact (hfurther _ (h.enter c)).stop hc
    · exact hfurther _ ((h.enter c).stop hc)

theorem plusEnds_all (greedy : Bool) (hc : P c) : ∀ d ∈ plusEnds body greedy c, P d := by
  have hempty : ({} : Walk).All P := fun _ hd => absurd hd List.not_mem_nil
  have hfirst : (Walk.firstRound body greedy c).All P := by
    refine hempty.foldl (fun w next hw hnext => ?_) (hbody c hc)
    split_ifs
    · exact hw
    · exact (hw.enter c).stop hc
    · exact hw.rounds hbody greedy c.rest.length hnext
  intro d hd
  exact hfirst d (List.mem_reverse.1 hd)

omit hbody in
theorem optionalEnds_all (greedy : Bool) {inner : List Cursor} (hc : P c) (hinner : ∀ d ∈ inner, P d) :
    ∀ d ∈ optionalEnds greedy c inner, P d := by
  intro d hd
  have hd := (arrivals_sublist _ _).subset hd
  cases greedy with
  | true =>
    rcases List.mem_append.1 hd with hd | hd
    · exact hinner d hd
    · rw [List.mem_singleton.1 hd]
      exact hc
  | false =>
    rcases List.mem_cons.1 hd with rfl | hd
    · exact hc
    · exact hinner d hd

theorem upToEnds_all (greedy : Bool) (n : Nat) (hc : P c) : ∀ d ∈ upToEnds body greedy n c, P d := by
  induction n generalizing c with
  | zero =>
    intro d hd
    rw [List.mem_singleton.1 hd]
    exact hc
  | succ n ih =>
    apply optionalEnds_all greedy hc
    intro d hd
    obtain ⟨next, hnext, hd⟩ := List.mem_flatMap.1 hd
    exact ih (hbody c hc next hnext) d hd

theorem exactEnds_all (n : Nat) {cs : List Cursor} (hcs : ∀ c ∈ cs, P c) : ∀ d ∈ exactEnds body n cs, P d := by
  induction n generalizing cs with
  | zero => exact hcs
  | succ n ih =>
    rw [exactEnds]
    split_ifs
    · exact fun d hd => absurd hd List.not_mem_nil
    · apply ih
      intro d hd
      obtain ⟨c, hc, hd⟩ := List.mem_flatMap.1 ((arrivals_sublist _ _).subset hd)
      exact hbody c (hcs c hc) d hd

theorem manyEnds_all (least : Nat) (most : Option Nat) (greedy : Bool) (hc : P c) :
    ∀ d ∈ manyEnds body least most greedy c, P d := by
  have hexact : ∀ n, ∀ d ∈ exactEnds body n [c], P d := by
    intro n
    apply exactEnds_all hbody
    intro d hd
    rw [List.mem_singleton.1 hd]
    exact hc
  intro d hd
  cases most with
  | some most =>
    obtain ⟨next, hnext, hd⟩ := List.mem_flatMap.1 ((arrivals_sublist _ _).subset hd)
    exact upToEnds_all hbody greedy _ (hexact least next hnext) d hd
  | none =>
    cases least with
    | zero => exact optionalEnds_all greedy hc (plusEnds_all hbody greedy hc) d hd
    | succ least =>
      obtain ⟨next, hnext, hd⟩ := List.mem_flatMap.1 ((arrivals_sublist _ _).subset hd)
      exact plusEnds_all hbody greedy (hexact least next hnext) d hd

end Repetition

/-- **A match ends at or after the place where it begins.** -/
theorem Expr.ends_places (e : Expr) {c d : Cursor} (h : d ∈ e.ends c) : d ∈ c.places := by
  induction e generalizing c d with
  | empty =>
    rw [List.mem_singleton.1 h]
    exact c.mem_places_self
  | set s =>
    rw [Expr.ends] at h
    cases hr : c.rest with
    | nil => simp [hr] at h
    | cons x rest =>
      simp only [hr] at h
      split_ifs at h
      · rw [List.mem_singleton.1 h, Cursor.places_of_cons hr]
        exact List.mem_cons_of_mem _ (Cursor.mem_places_self _)
      · cases h
  | anchor a =>
    rw [Expr.ends] at h
    split_ifs at h
    · rw [List.mem_singleton.1 h]
      exact c.mem_places_self
    · cases h
  | seq a b iha ihb =>
    obtain ⟨next, hnext, hd⟩ := List.mem_flatMap.1 ((arrivals_sublist _ _).subset h)
    exact Cursor.places_trans (iha hnext) (ihb hd)
  | alt a b iha ihb =>
    rcases List.mem_append.1 ((arrivals_sublist _ _).subset h) with h | h
    · exact iha h
    · exact ihb h
  | many body least most greedy ih =>
    have hbody : ∀ a, a ∈ c.places → ∀ d ∈ body.ends a, d ∈ c.places :=
      fun a ha d hd => Cursor.places_trans ha (ih hd)
    exact manyEnds_all hbody least most greedy c.mem_places_self d h

end Linewise.Regex
