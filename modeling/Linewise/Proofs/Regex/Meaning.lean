/-
What an expression matches, said without the order of preference.

`Expr.Reaches e c d` holds if `e` can match from `c` to `d`: a sequence through some place between, an alternative by
either branch, a repetition by a number of rounds within its bounds. Main statement: `Expr.mem_ends_iff`, the ends
listed are exactly the places reached. The one hard case is the unbounded repetition: its walk enters each place once
and drops rounds that consume nothing, and still finds every place that some number of rounds reaches, because the
places entered are closed under the body when the walk is over (`Walk.Grows`).

An expression without anchors does not look beyond its match (`Expr.reaches_steady`), so whether it matches a stretch
of a text does not depend on what stands around the stretch (`Expr.matchesWhole_iff_reaches`).
-/
import Mathlib.Data.Nat.Bitwise
import Linewise.Proofs.Regex.Search

namespace Linewise.Regex

/-- so many steps one after the other -/
def Rounds (step : Cursor → Cursor → Prop) : Nat → Cursor → Cursor → Prop
  | 0, c, d => d = c
  | n + 1, c, d => ∃ middle, step c middle ∧ Rounds step n middle d

/-- the expression can match from the first place to the second -/
def Expr.Reaches : Expr → Cursor → Cursor → Prop
  | .empty, c, d => d = c
  | .set s, c, d => ∃ x rest, c.rest = x :: rest ∧ s.mem x = true ∧ d = c.past x rest
  | .anchor a, c, d => a.holds c = true ∧ d = c
  | .seq a b, c, d => ∃ middle, a.Reaches c middle ∧ b.Reaches middle d
  | .alt a b, c, d => a.Reaches c d ∨ b.Reaches c d
  | .many body least most _, c, d =>
    ∃ n, least ≤ n ∧ (∀ bound, most = some bound → n ≤ max least bound) ∧ Rounds body.Reaches n c d

namespace Rounds

variable {step : Cursor → Cursor → Prop} {m n : Nat} {c d : Cursor}

theorem one (h : step c d) : Rounds step 1 c d := ⟨d, h, rfl⟩

theorem add_iff : Rounds step (m + n) c d ↔ ∃ middle, Rounds step m c middle ∧ Rounds step n middle d := by
  induction m generalizing c with
  | zero => simp [Rounds]
  | succ m ih =>
    rw [Nat.succ_add, Rounds]
    constructor
    · rintro ⟨next, hnext, h⟩
      obtain ⟨middle, hfirst, hlater⟩ := ih.1 h
      exact ⟨middle, ⟨next, hnext, hfirst⟩, hlater⟩
    · rintro ⟨middle, ⟨next, hnext, hfirst⟩, hlater⟩
      exact ⟨next, hnext, ih.2 ⟨middle, hfirst, hlater⟩⟩

/-- what holds of a place and is kept by a step holds after any number of them -/
theorem keeps {P : Cursor → Prop} (hstep : ∀ c d, P c → step c d → P d) (h : Rounds step n c d) (hc : P c) : P d := by
  induction n generalizing c with
  | zero =>
    cases h
    exact hc
  | succ n ih =>
    obtain ⟨next, hnext, h⟩ := h
    exact ih h (hstep c next hc hnext)

end Rounds

/-- a step or more one after the other -/
def SomeRounds (step : Cursor → Cursor → Prop) (c d : Cursor) : Prop := ∃ n, Rounds step (n + 1) c d

theorem SomeRounds.step {step : Cursor → Cursor → Prop} {a b c : Cursor} (h : SomeRounds step c a) (hb : step a b) :
    SomeRounds step c b := by
  obtain ⟨n, hrounds⟩ := h
  exact ⟨n + 1, Rounds.add_iff.2 ⟨a, hrounds, .one hb⟩⟩

/-! ## Places listed once -/

theorem testBit_enter (seen m n : Nat) : (seen ||| 1 <<< m).testBit n = (seen.testBit n || decide (m = n)) := by
  rw [Nat.testBit_or, Nat.one_shiftLeft, Nat.testBit_two_pow]

section

variable {root c d : Cursor} {cs : List Cursor}

theorem mem_arrivals {seen : Nat} (hcs : ∀ c ∈ cs, c ∈ root.places) :
    d ∈ arrivals seen cs ↔ d ∈ cs ∧ seen.testBit d.offset = false := by
  induction cs generalizing seen with
  | nil => simp [arrivals]
  | cons c cs ih =>
    obtain ⟨hc, hcs⟩ := List.forall_mem_cons.1 hcs
    rw [arrivals]
    split_ifs with hseen
    · rw [ih hcs, List.mem_cons]
      constructor
      · rintro ⟨hd, hnew⟩
        exact ⟨.inr hd, hnew⟩
      · rintro ⟨rfl | hd, hnew⟩
        · simp [hnew] at hseen
        · exact ⟨hd, hnew⟩
    · rw [List.mem_cons, List.mem_cons, ih hcs, testBit_enter, Bool.or_eq_false_iff, decide_eq_false_iff_not]
      constructor
      · rintro (rfl | ⟨hd, hnew, -⟩)
        · exact ⟨.inl rfl, by simpa using hseen⟩
        · exact ⟨.inr hd, hnew⟩
      · rintro ⟨rfl | hd, hnew⟩
        · exact .inl rfl
        · by_cases hsame : c.offset = d.offset
          · exact .inl (Cursor.eq_of_offset hc (hcs d hd) hsame).symm
          · exact .inr ⟨hd, hnew, hsame⟩

theorem mem_arrivals_zero (hcs : ∀ c ∈ cs, c ∈ root.places) : d ∈ arrivals 0 cs ↔ d ∈ cs := by
  simp [mem_arrivals hcs]

theorem arrivals_head? (cs : List Cursor) : (arrivals 0 cs).head? = cs.head? := by
  cases cs with
  | nil => rfl
  | cons c cs => simp [arrivals]

end

/-! ## The walk of an unbounded repetition -/

section Repetition

variable {body : Cursor → List Cursor} (hbody : ∀ c, ∀ d ∈ body c, d ∈ c.places) {root c d : Cursor} {greedy : Bool}

/-- a later stage of a walk below `root`: each place entered since then is an end, and what a round reaches from it is
entered too -/
structure Walk.Grows (body : Cursor → List Cursor) (root : Cursor) (w w' : Walk) : Prop where
  knows : ∀ d, w.knows d = true → w'.knows d = true
  found : ∀ d ∈ w.found, d ∈ w'.found
  closed : ∀ d ∈ root.places, w'.knows d = true →
    w.knows d = true ∨ (d ∈ w'.found ∧ ∀ next ∈ body d, w'.knows next = true)

namespace Walk

variable {w w' w'' : Walk}

@[simp] theorem knows_stop (w : Walk) (c d : Cursor) : (w.stop c).knows d = w.knows d := rfl

@[simp] theorem mem_found_stop : d ∈ (w.stop c).found ↔ d = c ∨ d ∈ w.found := List.mem_cons

theorem knows_enter (w : Walk) (c d : Cursor) : (w.enter c).knows d = (w.knows d || decide (c.offset = d.offset)) :=
  testBit_enter _ _ _

@[simp] theorem knows_enter_self (w : Walk) (c : Cursor) : (w.enter c).knows c = true := by simp [knows_enter]

theorem Grows.refl (body : Cursor → List Cursor) (root : Cursor) (w : Walk) : Grows body root w w :=
  ⟨fun _ => id, fun _ => id, fun _ _ => .inl⟩

theorem Grows.trans (h : Grows body root w w') (h' : Grows body root w' w'') : Grows body root w w'' where
  knows d hd := h'.knows d (h.knows d hd)
  found d hd := h'.found d (h.found d hd)
  closed d hd hknown := by
    rcases h'.closed d hd hknown with hold | hnew
    · rcases h.closed d hd hold with hold | ⟨hfound, hnext⟩
      · exact .inl hold
      · exact .inr ⟨h'.found d hfound, fun next hmem => h'.knows next (hnext next hmem)⟩
    · exact .inr hnew

theorem Grows.stop (h : Grows body root w w') (c : Cursor) : Grows body root w (w'.stop c) where
  knows := h.knows
  found d hd := mem_found_stop.2 (.inr (h.found d hd))
  closed d hd hknown := by
    rcases h.closed d hd hknown with hold | ⟨hfound, hnext⟩
    · exact .inl hold
    · exact .inr ⟨mem_found_stop.2 (.inr hfound), hnext⟩

/-- steps that each grow the walk and enter their place do so together -/
theorem Grows.foldl {f : Walk → Cursor → Walk} {nexts : List Cursor}
    (hf : ∀ w, w.knows c = true → ∀ next ∈ nexts, Grows body root w (f w next) ∧ (f w next).knows next = true)
    (hc : w.knows c = true) :
    Grows body root w (nexts.foldl f w) ∧ ∀ next ∈ nexts, (nexts.foldl f w).knows next = true := by
  induction nexts generalizing w with
  | nil => exact ⟨.refl body root w, by simp⟩
  | cons next nexts ih =>
    obtain ⟨hgrows, hnext⟩ := hf w hc next List.mem_cons_self
    obtain ⟨hlater, hnexts⟩ :=
      ih (fun w hw next hmem => hf w hw next (List.mem_cons_of_mem _ hmem)) (hgrows.knows c hc)
    exact ⟨hgrows.trans hlater, List.forall_mem_cons.2 ⟨hlater.knows next hnext, hnexts⟩⟩

/-- a walk that entered a place has grown once the place is an end and what a round reaches from it is entered -/
theorem Grows.of_enter (h : Grows body root (w.enter c) w') (hc : c ∈ root.places) (hfound : c ∈ w'.found)
    (hnext : ∀ next ∈ body c, w'.knows next = true) : Grows body root w w' where
  knows d hd := h.knows d (by simp [knows_enter, hd])
  found := h.found
  closed d hd hknown := by
    rcases h.closed d hd hknown with hold | hnew
    · rw [knows_enter, Bool.or_eq_true, decide_eq_true_eq] at hold
      rcases hold with hold | hsame
      · exact .inl hold
      · rw [← Cursor.eq_of_offset hc hd hsame]
        exact .inr ⟨hfound, hnext⟩
    · exact .inr hnew

include hbody in
/-- the rounds from a place enter it and leave nothing undone -/
theorem rounds_grows {fuel : Nat} (hfuel : c.rest.length < fuel) (hc : c ∈ root.places) (w : Walk) :
    Grows body root w (rounds body greedy fuel w c) ∧ (rounds body greedy fuel w c).knows c = true := by
  induction fuel generalizing c w with
  | zero => exact absurd hfuel (Nat.not_lt_zero _)
  | succ fuel ih =>
    -- a round that consumes nothing ends where it began, at a place already entered
    have hstep : ∀ w : Walk, w.knows c = true → ∀ next ∈ body c,
        Grows body root w (if next.offset = c.offset then w else rounds body greedy fuel w next) ∧
        (if next.offset = c.offset then w else rounds body greedy fuel w next).knows next = true := by
      intro w hw next hnext
      split_ifs with hsame
      · refine ⟨.refl body root w, ?_⟩
        rwa [knows, hsame]
      · have hmem := hbody c next hnext
        have hlt : c.offset < next.offset := Nat.lt_of_le_of_ne (Cursor.offset_le hmem) (Ne.symm hsame)
        have hshorter := Cursor.length_lt_of_offset_lt hmem hlt
        exact ih (by omega) (Cursor.places_trans hc hmem) w
    rw [rounds]
    split_ifs with hknown hgreedy
    · exact ⟨.refl body root w, hknown⟩
    · obtain ⟨hgrows, hnext⟩ := Grows.foldl hstep (w.knows_enter_self c)
      have hentered := hgrows.knows c (w.knows_enter_self c)
      exact ⟨(hgrows.stop c).of_enter hc (mem_found_stop.2 (.inl rfl)) hnext, hentered⟩
    · have hself : ((w.enter c).stop c).knows c = true := w.knows_enter_self c
      obtain ⟨hgrows, hnext⟩ := Grows.foldl hstep hself
      have hstopped := (Grows.refl body root (w.enter c)).stop c
      exact ⟨(hstopped.trans hgrows).of_enter hc (hgrows.found c (mem_found_stop.2 (.inl rfl))) hnext,
        hgrows.knows c hself⟩

/-- each place entered is an end, and but for `c` what a round reaches from it is entered too -/
def Settled (body : Cursor → List Cursor) (c : Cursor) (w : Walk) : Prop :=
  ∀ d ∈ c.places, w.knows d = true → d ∈ w.found ∧ (d = c ∨ ∀ next ∈ body d, w.knows next = true)

theorem Settled.grows (h : w.Settled body c) (hgrows : Grows body c w w') : w'.Settled body c := by
  intro d hd hknown
  rcases hgrows.closed d hd hknown with hold | ⟨hfound, hnext⟩
  · obtain ⟨hfound, hdone⟩ := h d hd hold
    refine ⟨hgrows.found d hfound, hdone.imp_right fun hnext next hmem => ?_⟩
    exact hgrows.knows next (hnext next hmem)
  · exact ⟨hfound, .inr hnext⟩

theorem Settled.enter_stop (h : w.Settled body c) : ((w.enter c).stop c).Settled body c := by
  intro d hd hknown
  rw [knows_stop, knows_enter, Bool.or_eq_true, decide_eq_true_eq] at hknown
  rcases hknown with hold | hsame
  · obtain ⟨hfound, hdone⟩ := h d hd hold
    refine ⟨mem_found_stop.2 (.inr hfound), hdone.imp_right fun hnext next hmem => ?_⟩
    simp [knows_enter, hnext next hmem]
  · have heq : d = c := (Cursor.eq_of_offset c.mem_places_self hd hsame).symm
    exact ⟨mem_found_stop.2 (.inl heq), .inl heq⟩

/-- steps that each keep the walk settled and enter their place do so together -/
theorem Settled.foldl {f : Walk → Cursor → Walk} {nexts : List Cursor}
    (hf : ∀ w, w.Settled body c → ∀ next ∈ nexts,
      (f w next).Settled body c ∧ (∀ d, w.knows d = true → (f w next).knows d = true) ∧ (f w next).knows next = true)
    (hw : w.Settled body c) :
    (nexts.foldl f w).Settled body c ∧ (∀ d, w.knows d = true → (nexts.foldl f w).knows d = true) ∧
      ∀ next ∈ nexts, (nexts.foldl f w).knows next = true := by
  induction nexts generalizing w with
  | nil => exact ⟨hw, fun _ => id, by simp⟩
  | cons next nexts ih =>
    obtain ⟨hsettled, hmono, hnext⟩ := hf w hw next List.mem_cons_self
    obtain ⟨hlater, hmono', hnexts⟩ := ih (fun w hw next hmem => hf w hw next (List.mem_cons_of_mem _ hmem)) hsettled
    exact ⟨hlater, fun d hd => hmono' d (hmono d hd), List.forall_mem_cons.2 ⟨hmono' next hnext, hnexts⟩⟩

include hbody in
/-- when the first round is done, the walk is settled and every end of the round is entered -/
theorem firstRound_settled (greedy : Bool) (c : Cursor) :
    (firstRound body greedy c).Settled body c ∧ ∀ next ∈ body c, (firstRound body greedy c).knows next = true := by
  have hempty : ({} : Walk).Settled body c := fun d _ hknown => by simp [knows] at hknown
  refine (hempty.foldl fun w hw next hnext => ?_).imp_right And.right
  have hmem := hbody c next hnext
  split_ifs with hsame hknown
  · exact ⟨hw, fun _ => id, by rwa [knows, hsame]⟩
  · refine ⟨hw.enter_stop, fun d hd => by simp [knows_enter, hd], ?_⟩
    simp [knows_enter, hsame]
  · have hlt : c.offset < next.offset := Nat.lt_of_le_of_ne (Cursor.offset_le hmem) (Ne.symm hsame)
    obtain ⟨hgrows, hentered⟩ := rounds_grows hbody (Cursor.length_lt_of_offset_lt hmem hlt) hmem w
    exact ⟨hw.grows hgrows, hgrows.knows, hentered⟩

end Walk

include hbody

theorem rounds_places {n : Nat} (h : Rounds (fun c d => d ∈ body c) n c d) : d ∈ c.places :=
  h.keeps (P := fun d => d ∈ c.places) (fun a b ha hb => Cursor.places_trans ha (hbody a b hb)) c.mem_places_self

/-- every end of the walk is reached: the walk only ever applies the body -/
theorem someRounds_of_mem_plusEnds (h : d ∈ plusEnds body greedy c) : SomeRounds (fun c d => d ∈ body c) c d := by
  have hempty : ({} : Walk).All (SomeRounds (fun c d => d ∈ body c) c) := fun _ hd => absurd hd List.not_mem_nil
  have hfirst : (Walk.firstRound body greedy c).All (SomeRounds (fun c d => d ∈ body c) c) := by
    refine hempty.foldl (fun w next hw hnext => ?_) fun next hnext => ⟨0, .one hnext⟩
    split_ifs with hsame
    · exact hw
    · obtain ⟨n, hrounds⟩ := hnext
      have heq := Cursor.eq_of_offset (rounds_places hbody hrounds) c.mem_places_self hsame
      rw [heq] at hrounds
      exact (hw.enter c).stop ⟨n, hrounds⟩
    · exact hw.rounds (fun a ha b hb => ha.step hb) greedy c.rest.length hnext
  exact hfirst d (List.mem_reverse.1 h)

/-- every place reached is an end of the walk: the places entered are closed under the body -/
theorem mem_plusEnds_of_someRounds (h : SomeRounds (fun c d => d ∈ body c) c d) : d ∈ plusEnds body greedy c := by
  obtain ⟨n, next, hnext, hrounds⟩ := h
  obtain ⟨hsettled, hentered⟩ := Walk.firstRound_settled hbody greedy c
  have hkeeps : ∀ a b, a ∈ c.places ∧ (Walk.firstRound body greedy c).knows a = true → b ∈ body a →
      b ∈ c.places ∧ (Walk.firstRound body greedy c).knows b = true := by
    rintro a b ⟨ha, hknown⟩ hb
    refine ⟨Cursor.places_trans ha (hbody a b hb), ?_⟩
    rcases (hsettled a ha hknown).2 with rfl | hdone
    · exact hentered b hb
    · exact hdone b hb
  obtain ⟨hd, hknown⟩ := hrounds.keeps hkeeps ⟨hbody c next hnext, hentered next hnext⟩
  exact List.mem_reverse.2 (hsettled d hd hknown).1

theorem mem_plusEnds : d ∈ plusEnds body greedy c ↔ SomeRounds (fun c d => d ∈ body c) c d :=
  ⟨someRounds_of_mem_plusEnds hbody, mem_plusEnds_of_someRounds hbody⟩

theorem mem_exactEnds {n : Nat} {cs : List Cursor} (hcs : ∀ c ∈ cs, c ∈ root.places) :
    d ∈ exactEnds body n cs ↔ ∃ c ∈ cs, Rounds (fun c d => d ∈ body c) n c d := by
  induction n generalizing cs with
  | zero => simp [exactEnds, Rounds]
  | succ n ih =>
    have hnexts : ∀ d ∈ cs.flatMap body, d ∈ root.places := by
      intro d hd
      obtain ⟨c, hc, hd⟩ := List.mem_flatMap.1 hd
      exact Cursor.places_trans (hcs c hc) (hbody c d hd)
    rw [exactEnds]
    split_ifs with hempty
    · simp [List.isEmpty_iff.1 hempty]
    · rw [ih fun d hd => hnexts d ((mem_arrivals_zero hnexts).1 hd)]
      simp only [mem_arrivals_zero hnexts, List.mem_flatMap, Rounds]
      constructor
      · rintro ⟨next, ⟨c, hc, hnext⟩, h⟩
        exact ⟨c, hc, next, hnext, h⟩
      · rintro ⟨c, hc, next, hnext, h⟩
        exact ⟨next, ⟨c, hc, hnext⟩, h⟩

omit hbody in
theorem mem_optionalEnds {inner : List Cursor} (hinner : ∀ d ∈ inner, d ∈ c.places) :
    d ∈ optionalEnds greedy c inner ↔ d = c ∨ d ∈ inner := by
  cases greedy with
  | true =>
    have hall : ∀ d ∈ inner ++ [c], d ∈ c.places := by
      intro d hd
      rcases List.mem_append.1 hd with hd | hd
      · exact hinner d hd
      · rw [List.mem_singleton.1 hd]
        exact c.mem_places_self
    rw [optionalEnds, if_pos rfl, mem_arrivals_zero hall, List.mem_append, List.mem_singleton, or_comm]
  | false =>
    have hall : ∀ d ∈ c :: inner, d ∈ c.places := List.forall_mem_cons.2 ⟨c.mem_places_self, hinner⟩
    rw [optionalEnds, if_neg Bool.false_ne_true, mem_arrivals_zero hall, List.mem_cons]

theorem mem_upToEnds {n : Nat} :
    d ∈ upToEnds body greedy n c ↔ ∃ k, k ≤ n ∧ Rounds (fun c d => d ∈ body c) k c d := by
  induction n generalizing c d with
  | zero =>
    constructor
    · intro hd
      exact ⟨0, Nat.le_refl _, List.mem_singleton.1 hd⟩
    · rintro ⟨k, hk, h⟩
      cases Nat.le_zero.1 hk
      exact List.mem_singleton.2 h
  | succ n ih =>
    have hinner : ∀ d ∈ (body c).flatMap (upToEnds body greedy n), d ∈ c.places := by
      intro d hd
      obtain ⟨next, hnext, hd⟩ := List.mem_flatMap.1 hd
      obtain ⟨k, -, h⟩ := ih.1 hd
      exact Cursor.places_trans (hbody c next hnext) (rounds_places hbody h)
    rw [upToEnds, mem_optionalEnds hinner, List.mem_flatMap]
    constructor
    · rintro (rfl | ⟨next, hnext, hd⟩)
      · exact ⟨0, Nat.zero_le _, rfl⟩
      · obtain ⟨k, hk, h⟩ := ih.1 hd
        exact ⟨k + 1, Nat.succ_le_succ hk, next, hnext, h⟩
    · rintro ⟨k, hk, h⟩
      cases k with
      | zero => exact .inl h
      | succ k =>
        obtain ⟨next, hnext, h⟩ := h
        exact .inr ⟨next, hnext, ih.2 ⟨k, Nat.le_of_succ_le_succ hk, h⟩⟩

theorem plusEnds_places (h : d ∈ plusEnds body greedy c) : d ∈ c.places := by
  obtain ⟨n, hrounds⟩ := (mem_plusEnds hbody).1 h
  exact rounds_places hbody hrounds

theorem upToEnds_places {n : Nat} (h : d ∈ upToEnds body greedy n c) : d ∈ c.places := by
  obtain ⟨k, -, hrounds⟩ := (mem_upToEnds hbody).1 h
  exact rounds_places hbody hrounds

/-- after so many rounds, what the rest of a repetition reaches -/
theorem mem_after_exactEnds {n : Nat} {rest : Cursor → List Cursor} (hrest : ∀ a, ∀ b ∈ rest a, b ∈ a.places) :
    d ∈ arrivals 0 ((exactEnds body n [c]).flatMap rest) ↔
      ∃ middle, Rounds (fun c d => d ∈ body c) n c middle ∧ d ∈ rest middle := by
  have hself : ∀ a ∈ [c], a ∈ c.places := List.forall_mem_singleton.2 c.mem_places_self
  have hexact : ∀ middle, middle ∈ exactEnds body n [c] ↔ Rounds (fun c d => d ∈ body c) n c middle := by
    intro middle
    rw [mem_exactEnds hbody hself]
    simp
  have hall : ∀ d ∈ (exactEnds body n [c]).flatMap rest, d ∈ c.places := by
    intro d hd
    obtain ⟨middle, hmiddle, hd⟩ := List.mem_flatMap.1 hd
    exact Cursor.places_trans (rounds_places hbody ((hexact middle).1 hmiddle)) (hrest middle d hd)
  simp only [mem_arrivals_zero hall, List.mem_flatMap, hexact]

/-- a repetition ends where a number of rounds within its bounds ends -/
theorem mem_manyEnds {least : Nat} {most : Option Nat} :
    d ∈ manyEnds body least most greedy c ↔ ∃ n, least ≤ n ∧ (∀ bound, most = some bound → n ≤ max least bound) ∧
      Rounds (fun c d => d ∈ body c) n c d := by
  cases most with
  | some most =>
    rw [manyEnds, mem_after_exactEnds hbody fun _ _ => upToEnds_places hbody]
    constructor
    · rintro ⟨middle, hfirst, hlater⟩
      obtain ⟨k, hk, h⟩ := (mem_upToEnds hbody).1 hlater
      refine ⟨least + k, Nat.le_add_right _ _, ?_, Rounds.add_iff.2 ⟨middle, hfirst, h⟩⟩
      rintro bound ⟨⟩
      omega
    · rintro ⟨n, hleast, hmost, h⟩
      obtain ⟨k, rfl⟩ := Nat.exists_eq_add_of_le hleast
      obtain ⟨middle, hfirst, hlater⟩ := Rounds.add_iff.1 h
      have hbound := hmost most rfl
      exact ⟨middle, hfirst, (mem_upToEnds hbody).2 ⟨k, by omega, hlater⟩⟩
  | none =>
    cases least with
    | zero =>
      rw [manyEnds, mem_optionalEnds fun _ => plusEnds_places hbody, mem_plusEnds hbody]
      constructor
      · rintro (rfl | ⟨n, h⟩)
        · exact ⟨0, Nat.le_refl _, by simp, rfl⟩
        · exact ⟨n + 1, Nat.zero_le _, by simp, h⟩
      · rintro ⟨n, -, -, h⟩
        cases n with
        | zero => exact .inl h
        | succ n => exact .inr ⟨n, h⟩
    | succ least =>
      rw [manyEnds, mem_after_exactEnds hbody fun _ _ => plusEnds_places hbody]
      constructor
      · rintro ⟨middle, hfirst, hlater⟩
        obtain ⟨n, h⟩ := (mem_plusEnds hbody).1 hlater
        exact ⟨least + (n + 1), by omega, by simp, Rounds.add_iff.2 ⟨middle, hfirst, h⟩⟩
      · rintro ⟨n, hleast, -, h⟩
        obtain ⟨k, rfl⟩ := Nat.exists_eq_add_of_le hleast
        rw [show least + 1 + k = least + (k + 1) by omega] at h
        obtain ⟨middle, hfirst, hlater⟩ := Rounds.add_iff.1 h
        exact ⟨middle, hfirst, (mem_plusEnds hbody).2 ⟨k, hlater⟩⟩

end Repetition

namespace Expr

variable {c d : Cursor}

/-- **The ends listed are exactly the places reached.** -/
theorem mem_ends_iff (e : Expr) : d ∈ e.ends c ↔ e.Reaches c d := by
  induction e generalizing c d with
  | empty => exact List.mem_singleton
  | set s =>
    rw [ends, Reaches]
    cases hr : c.rest with
    | nil => simp
    | cons x rest =>
      by_cases hx : s.mem x = true
      · simp [hx]
      · simp [hx]
  | anchor a =>
    by_cases ha : a.holds c = true
    · simp [ends, Reaches, ha]
    · simp [ends, Reaches, ha]
  | seq a b iha ihb =>
    have hall : ∀ d ∈ (a.ends c).flatMap b.ends, d ∈ c.places := by
      intro d hd
      obtain ⟨middle, hmiddle, hd⟩ := List.mem_flatMap.1 hd
      exact Cursor.places_trans (a.ends_places hmiddle) (b.ends_places hd)
    simp only [ends, Reaches, mem_arrivals_zero hall, List.mem_flatMap, iha, ihb]
  | alt a b iha ihb =>
    have hall : ∀ d ∈ a.ends c ++ b.ends c, d ∈ c.places := by
      intro d hd
      rcases List.mem_append.1 hd with hd | hd
      · exact a.ends_places hd
      · exact b.ends_places hd
    simp only [ends, Reaches, mem_arrivals_zero hall, List.mem_append, iha, ihb]
  | many body least most greedy ih =>
    rw [ends, Reaches, mem_manyEnds fun _ _ => body.ends_places]
    have hsame : (fun c d => d ∈ body.ends c) = body.Reaches := funext fun c => funext fun d => propext ih
    rw [hsame]

theorem Reaches.places {e : Expr} (h : e.Reaches c d) : d ∈ c.places := e.ends_places (e.mem_ends_iff.2 h)

/-! ## Expressions that look at nothing but their match -/

/-- whether the expression has no condition on the place between two characters -/
def anchorFree : Expr → Bool
  | .anchor _ => false
  | .seq a b | .alt a b => a.anchorFree && b.anchorFree
  | .many body .. => body.anchorFree
  | _ => true

/-- from places that differ by text behind it, the relation leads to places that differ so -/
def Steady (step : Cursor → Cursor → Prop) (tail : Text) : Prop :=
  ∀ a b : Cursor, b.rest = a.rest ++ tail → ∀ rest : Text,
    (∃ d, step b d ∧ d.rest = rest ++ tail) ↔ ∃ d, step a d ∧ d.rest = rest

/-- one steady relation after the other is steady, if the second does not go back -/
theorem Steady.comp {step step' : Cursor → Cursor → Prop} {tail : Text} (h : Steady step tail) (h' : Steady step' tail)
    (hplaces : ∀ c d, step' c d → d ∈ c.places) : Steady (fun c d => ∃ middle, step c middle ∧ step' middle d) tail := by
  intro a b hab rest
  constructor
  · rintro ⟨d, ⟨middle, hfirst, hlater⟩, hd⟩
    obtain ⟨between, hmiddle, -⟩ := Cursor.rest_eq_append (hplaces middle d hlater)
    rw [hd, ← List.append_assoc] at hmiddle
    obtain ⟨middle', hfirst', hmiddle'⟩ := (h a b hab _).1 ⟨middle, hfirst, hmiddle⟩
    obtain ⟨d', hlater', hd'⟩ := (h' middle' middle (by rw [hmiddle, hmiddle']) rest).1 ⟨d, hlater, hd⟩
    exact ⟨d', ⟨middle', hfirst', hlater'⟩, hd'⟩
  · rintro ⟨d, ⟨middle, hfirst, hlater⟩, hd⟩
    obtain ⟨middle', hfirst', hmiddle'⟩ := (h a b hab _).2 ⟨middle, hfirst, rfl⟩
    obtain ⟨d', hlater', hd'⟩ := (h' middle middle' hmiddle' rest).2 ⟨d, hlater, hd⟩
    exact ⟨d', ⟨middle', hfirst', hlater'⟩, hd'⟩

theorem Steady.refl (tail : Text) : Steady (fun c d => d = c) tail := by
  intro a b hab rest
  simp [hab]

theorem Steady.rounds {step : Cursor → Cursor → Prop} {tail : Text} (h : Steady step tail)
    (hplaces : ∀ c d, step c d → d ∈ c.places) (n : Nat) : Steady (Rounds step n) tail := by
  induction n with
  | zero => exact .refl tail
  | succ n ih =>
    refine h.comp ih fun c d hrounds => ?_
    exact hrounds.keeps (P := fun d => d ∈ c.places) (fun a b ha hb => Cursor.places_trans ha (hplaces a b hb))
      c.mem_places_self

/-- **Without anchors, a match does not depend on what stands around it**: with more text behind the place, the same
stretches are matched, as long as they leave that text alone. -/
theorem reaches_steady {e : Expr} (hfree : e.anchorFree = true) (tail : Text) : Steady e.Reaches tail := by
  induction e with
  | empty => exact .refl tail
  | set s =>
    intro a b hab rest
    simp only [Reaches, hab]
    constructor
    · rintro ⟨d, ⟨x, behind, hb, hx, rfl⟩, hd⟩
      have ha : a.rest = x :: rest := by
        refine (List.append_left_inj tail).1 ?_
        rw [hb]
        exact congrArg (x :: ·) hd
      exact ⟨a.past x rest, ⟨x, rest, ha, hx, rfl⟩, rfl⟩
    · rintro ⟨d, ⟨x, behind, ha, hx, rfl⟩, hd⟩
      cases hd
      exact ⟨b.past x (behind ++ tail), ⟨x, behind ++ tail, by rw [ha]; rfl, hx, rfl⟩, rfl⟩
  | anchor a => cases hfree
  | seq a b iha ihb =>
    obtain ⟨hfirst, hlater⟩ := Bool.and_eq_true_iff.1 hfree
    exact (iha hfirst).comp (ihb hlater) fun _ _ => Reaches.places
  | alt a b iha ihb =>
    obtain ⟨hfirst, hlater⟩ := Bool.and_eq_true_iff.1 hfree
    intro p q hpq rest
    simp only [Reaches, or_and_right, exists_or, iha hfirst p q hpq rest, ihb hlater p q hpq rest]
  | many body least most greedy ih =>
    have hrounds := (ih hfree).rounds fun _ _ => Reaches.places
    intro a b hab rest
    simp only [Reaches]
    constructor
    · rintro ⟨d, ⟨n, hleast, hmost, h⟩, hd⟩
      obtain ⟨d', h', hd'⟩ := (hrounds n a b hab rest).1 ⟨d, h, hd⟩
      exact ⟨d', ⟨n, hleast, hmost, h'⟩, hd'⟩
    · rintro ⟨d, ⟨n, hleast, hmost, h⟩, hd⟩
      obtain ⟨d', h', hd'⟩ := (hrounds n a b hab rest).2 ⟨d, h, hd⟩
      exact ⟨d', ⟨n, hleast, hmost, h'⟩, hd'⟩

/-! ## Whole texts -/

variable {e : Expr} {text : Text}

theorem matchAt?_isSome_iff : (e.matchAt? c).isSome = true ↔ ∃ d, e.Reaches c d := by
  simp only [matchAt?, Option.isSome_map, List.isSome_head?, ← mem_ends_iff]
  constructor
  · exact List.exists_mem_of_ne_nil _
  · rintro ⟨d, hd⟩
    exact List.ne_nil_of_mem hd

theorem Reaches.of_matchAt? {hit : Hit} (h : e.matchAt? c = some hit) : e.Reaches c hit.stop := by
  obtain ⟨stop, hstop, rfl⟩ := Option.map_eq_some_iff.1 h
  exact e.mem_ends_iff.1 (List.mem_of_head? hstop)

/-- the earlier branch is preferred -/
theorem matchAt?_alt (a b : Expr) (c : Cursor) : (alt a b).matchAt? c = (a.matchAt? c).or (b.matchAt? c) := by
  rw [matchAt?, matchAt?, matchAt?, ends, arrivals_head?, List.head?_append, Option.map_or]

theorem accepts_iff : e.accepts text = true ↔ ∃ c ∈ (Cursor.start text).places, ∃ d, e.Reaches c d := by
  rw [accepts, Option.isSome_iff_exists]
  constructor
  · rintro ⟨hit, h⟩
    obtain ⟨hstart, hmatch, -⟩ := find?_some h
    exact ⟨hit.start, hstart, hit.stop, .of_matchAt? hmatch⟩
  · rintro ⟨c, hc, hreaches⟩
    obtain ⟨hit, hmatch⟩ := Option.isSome_iff_exists.1 (matchAt?_isSome_iff.2 hreaches)
    obtain ⟨first, hfirst, -⟩ := find?_le hc hmatch
    exact ⟨first, hfirst⟩

/-- whether the whole text is matched -/
def matchesWhole (e : Expr) (text : Text) : Bool := (e.ends (.start text)).any (·.rest.isEmpty)

theorem matchesWhole_iff : e.matchesWhole text = true ↔ ∃ d, e.Reaches (.start text) d ∧ d.rest = [] := by
  simp [matchesWhole, mem_ends_iff]

/-- between anchors at both ends an expression is left with the whole text -/
theorem accepts_anchored (e : Expr) (text : Text) :
    (seq (anchor .textStart) (seq e (anchor .textEnd))).accepts text = e.matchesWhole text := by
  rw [Bool.eq_iff_iff, accepts_iff, matchesWhole_iff]
  constructor
  · rintro ⟨c, hc, -, _, ⟨hstart, rfl⟩, d, hreaches, hend, -⟩
    -- only the first place of the text has no character before it
    rcases Cursor.eq_or_before hc with rfl | ⟨x, hbefore⟩
    · exact ⟨d, hreaches, by simpa [Anchor.holds] using hend⟩
    · simp [Anchor.holds, hbefore] at hstart
  · rintro ⟨d, hreaches, hend⟩
    refine ⟨.start text, Cursor.mem_places_self _, d, _, ⟨rfl, rfl⟩, d, hreaches, ?_, rfl⟩
    simp [Anchor.holds, hend]

/-- without anchors, a stretch of a text is matched where it stands if and only if it is matched alone -/
theorem matchesWhole_iff_reaches (hfree : e.anchorFree = true) {behind : Text} (hc : c.rest = text ++ behind) :
    e.matchesWhole text = true ↔ ∃ d, e.Reaches c d ∧ d.rest = behind := by
  rw [matchesWhole_iff]
  exact (reaches_steady hfree behind (.start text) c hc []).symm

end Expr

end Linewise.Regex
