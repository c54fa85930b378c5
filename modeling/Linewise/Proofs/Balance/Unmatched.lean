/-
Counters count the tokens without a partner.

A counter is filled token by token. Put together from pieces it is the same (`Pair.ofTokens_append`), so a sequence may be
cut anywhere and counted piece by piece. What it counts is said without it: an opening token and a closing one are partners
if what stands between them is balanced (`Partners`), and a token is unmatched if it has no partner.
- A closing token is unmatched exactly if the tokens before it leave nothing open, and an opening one exactly if the tokens
  behind it close nothing that was open (`mem_unmatchedClosings_iff`, `mem_unmatchedOpenings_iff`).
- So the unmatched closing tokens are found from the left and the unmatched opening ones from the right, one by one
  (`closed_ofTokens`, `opened_ofTokens`).
-/
import Mathlib.Data.Set.Card
import Linewise.Proofs.Balance.Pair
import Linewise.Proofs.Fold.Tokens

namespace Linewise

variable {front inner back tokens : List Token} {i j : Nat}

/-! ## Counting pieces -/

namespace Pair

theorem count_eq_add (p : Pair) (token : Token) : p.count token = p + ofTokens [token] := by
  cases token with
  | opening => simp [count, ofTokens, addOpening, add_def]
  | closing =>
    have hone : ofTokens [.closing] = ⟨0, 1⟩ := rfl
    rw [count, addClosing, hone, add_def]
    split_ifs with hopened
    · simp only [mk.injEq]
      omega
    · simp only [mk.injEq]
      omega

theorem foldl_count (p : Pair) (tokens : List Token) : tokens.foldl count p = p + ofTokens tokens := by
  induction tokens using List.reverseRecOn with
  | nil => exact (add_zero p).symm
  | append_singleton front token ih =>
    simp only [ofTokens, List.foldl_append, List.foldl_cons, List.foldl_nil] at ih ⊢
    rw [ih, count_eq_add, count_eq_add (front.foldl count {}), add_assoc]

/-- **Two pieces are counted one by one.** -/
theorem ofTokens_append (front back : List Token) : ofTokens (front ++ back) = ofTokens front + ofTokens back := by
  rw [ofTokens, List.foldl_append, foldl_count]
  rfl

theorem ofTokens_opening (tokens : List Token) :
    ofTokens (.opening :: tokens) =
      ⟨1 - (ofTokens tokens).closed + (ofTokens tokens).opened, (ofTokens tokens).closed - 1⟩ := by
  have hone : ofTokens (.opening :: tokens) = ⟨1, 0⟩ + ofTokens tokens := ofTokens_append [.opening] tokens
  rw [hone, add_def]
  simp only [mk.injEq]
  omega

theorem ofTokens_closing (tokens : List Token) :
    ofTokens (.closing :: tokens) = ⟨(ofTokens tokens).opened, (ofTokens tokens).closed + 1⟩ := by
  have hone : ofTokens (.closing :: tokens) = ⟨0, 1⟩ + ofTokens tokens := ofTokens_append [.closing] tokens
  rw [hone, add_def]
  simp only [mk.injEq]
  omega

theorem ofTokens_snoc_opening (tokens : List Token) :
    ofTokens (tokens ++ [.opening]) = ⟨(ofTokens tokens).opened + 1, (ofTokens tokens).closed⟩ := by
  rw [ofTokens, List.foldl_append]
  rfl

theorem ofTokens_snoc_closing (tokens : List Token) :
    ofTokens (tokens ++ [.closing]) =
      ⟨(ofTokens tokens).opened - 1, (ofTokens tokens).closed + (1 - (ofTokens tokens).opened)⟩ := by
  have hone : ofTokens [.closing] = ⟨0, 1⟩ := rfl
  rw [ofTokens_append, hone, add_def]
  simp only [mk.injEq]
  omega

theorem eq_zero_iff {p : Pair} : p = 0 ↔ p.opened = 0 ∧ p.closed = 0 := by
  obtain ⟨opened, closed⟩ := p
  rw [zero_def, mk.injEq]

end Pair

namespace Tally

/-- count a token, in a comment or not -/
def count {N : Type} [OfNat N 0] [OfNat N 1] [Add N] [Sub N] [LT N] [DecidableLT N] (t : Tally N)
    (token : Bool × Token) : Tally N :=
  t.modify token.1 (·.count token.2)

/-- the counters of tokens, one after the other, each with whether it is in a comment -/
def ofTokens (tokens : List (Bool × Token)) : Tally := tokens.foldl count {}

/-- the tokens of one context -/
def tokensIn (commented : Bool) (tokens : List (Bool × Token)) : List Token :=
  (tokens.filter (·.1 == commented)).map (·.2)

/-- contexts are counted on their own -/
theorem ofTokens_eq (tokens : List (Bool × Token)) :
    ofTokens tokens = ⟨Pair.ofTokens (tokensIn false tokens), Pair.ofTokens (tokensIn true tokens)⟩ := by
  induction tokens using List.reverseRecOn with
  | nil => rfl
  | append_singleton front token ih =>
    obtain ⟨commented, token⟩ := token
    have hlast : ofTokens (front ++ [(commented, token)]) = (ofTokens front).modify commented (·.count token) := by
      rw [ofTokens, List.foldl_append]
      rfl
    rw [hlast, ih]
    cases commented with
    | false => simp [modify, tokensIn, Pair.ofTokens_append, Pair.count_eq_add]
    | true => simp [modify, tokensIn, Pair.ofTokens_append, Pair.count_eq_add]

theorem ofTokens_append (front back : List (Bool × Token)) : ofTokens (front ++ back) = ofTokens front + ofTokens back := by
  simp only [ofTokens_eq, tokensIn, List.filter_append, List.map_append, Pair.ofTokens_append, add_def]

end Tally

/-! ## Balanced sequences -/

/-- every token has its partner -/
inductive Balanced : List Token → Prop
  | nil : Balanced []
  | wrap {inner back : List Token} : Balanced inner → Balanced back → Balanced (.opening :: (inner ++ .closing :: back))

namespace Pair

theorem ofTokens_of_balanced (h : Balanced tokens) : ofTokens tokens = 0 := by
  induction h with
  | nil => rfl
  | wrap _ _ hinner hback =>
    rw [ofTokens_opening, ofTokens_append, hinner, zero_add, ofTokens_closing, hback]
    rfl

/-- a block that was opened before is closed somewhere first: up to there nothing is counted -/
theorem exists_first_closing (h : 0 < (ofTokens tokens).closed) :
    ∃ front back, tokens = front ++ .closing :: back ∧ ofTokens front = 0 := by
  induction tokens using List.reverseRecOn with
  | nil => cases h
  | append_singleton front token ih =>
    rcases Nat.eq_zero_or_pos (ofTokens front).closed with hclosed | hclosed
    · cases token with
      | opening =>
        rw [ofTokens_snoc_opening] at h
        exact absurd h (by simp [hclosed])
      | closing =>
        rw [ofTokens_snoc_closing] at h
        refine ⟨front, [], rfl, eq_zero_iff.2 ⟨?_, hclosed⟩⟩
        simp only at h
        omega
    · obtain ⟨early, back, rfl, hearly⟩ := ih hclosed
      exact ⟨early, back ++ [token], by simp, hearly⟩

/-- a block that is left open is opened somewhere last: from there on nothing is counted -/
theorem exists_last_opening (h : 0 < (ofTokens tokens).opened) :
    ∃ front back, tokens = front ++ .opening :: back ∧ ofTokens back = 0 := by
  induction tokens with
  | nil => cases h
  | cons token tokens ih =>
    rcases Nat.eq_zero_or_pos (ofTokens tokens).opened with hopened | hopened
    · cases token with
      | opening =>
        rw [ofTokens_opening] at h
        refine ⟨[], tokens, rfl, eq_zero_iff.2 ⟨hopened, ?_⟩⟩
        simp only at h
        omega
      | closing =>
        rw [ofTokens_closing] at h
        exact absurd h (by simp [hopened])
    · obtain ⟨front, back, rfl, hback⟩ := ih hopened
      exact ⟨token :: front, back, rfl, hback⟩

/-- **A sequence counts nothing exactly if it is balanced.** -/
theorem ofTokens_eq_zero_iff : ofTokens tokens = 0 ↔ Balanced tokens := by
  refine ⟨fun h => ?_, ofTokens_of_balanced⟩
  induction hlength : tokens.length using Nat.strong_induction_on generalizing tokens with
  | _ n ih =>
    obtain ⟨hopened, hclosed⟩ := eq_zero_iff.1 h
    cases tokens with
    | nil => exact .nil
    | cons token tokens =>
      cases token with
      | opening =>
        -- the first token is closed where the rest first closes a block opened before it
        rw [ofTokens_opening] at hopened hclosed
        simp only at hopened hclosed
        have hcloses : 0 < (ofTokens tokens).closed := by omega
        obtain ⟨inner, back, rfl, hinner⟩ := exists_first_closing hcloses
        rw [ofTokens_append, hinner, zero_add, ofTokens_closing] at hopened hclosed
        have hback : ofTokens back = 0 := eq_zero_iff.2 ⟨by simp only at hopened; omega, by simp only at hclosed; omega⟩
        simp only [List.length_cons, List.length_append] at hlength
        exact .wrap (ih inner.length (by omega) hinner rfl) (ih back.length (by omega) hback rfl)
      | closing =>
        rw [ofTokens_closing] at hclosed
        cases hclosed

end Pair

/-! ## Partners -/

/-- the opening token at place `i` and the closing one at place `j` belong together: what stands between is balanced -/
def Partners (tokens : List Token) (i j : Nat) : Prop :=
  ∃ front inner back, tokens = front ++ .opening :: (inner ++ .closing :: back) ∧ Balanced inner ∧
    i = front.length ∧ j = front.length + 1 + inner.length

/-- the places of the opening tokens without a partner -/
def unmatchedOpenings (tokens : List Token) : Set Nat :=
  {i | tokens[i]? = some .opening ∧ ∀ j, ¬ Partners tokens i j}

/-- the places of the closing tokens without a partner -/
def unmatchedClosings (tokens : List Token) : Set Nat :=
  {j | tokens[j]? = some .closing ∧ ∀ i, ¬ Partners tokens i j}

/-- a closing token is unmatched exactly if nothing is open before it -/
theorem mem_unmatchedClosings_iff :
    j ∈ unmatchedClosings tokens ↔ tokens[j]? = some .closing ∧ (Pair.ofTokens (tokens.take j)).opened = 0 := by
  refine and_congr_right fun hj => ?_
  obtain ⟨hlt, hget⟩ := List.getElem?_eq_some_iff.1 hj
  have hsplit : tokens = tokens.take j ++ .closing :: tokens.drop (j + 1) := by
    rw [← hget]
    simp
  constructor
  · intro hnone
    by_contra hopened
    obtain ⟨front, inner, htake, hinner⟩ := Pair.exists_last_opening (Nat.pos_of_ne_zero hopened)
    refine hnone front.length ⟨front, inner, tokens.drop (j + 1), ?_, Pair.ofTokens_eq_zero_iff.1 hinner, rfl, ?_⟩
    · rw [htake] at hsplit
      simpa using hsplit
    · have hlength := congrArg List.length htake
      rw [List.length_take_of_le hlt.le, List.length_append, List.length_cons] at hlength
      omega
  · rintro hopened i ⟨front, inner, back, hall, hinner, rfl, rfl⟩
    have htake : tokens.take (front.length + 1 + inner.length) = front ++ .opening :: inner := by
      rw [hall, ← List.cons_append, ← List.append_assoc, List.take_left' (by simp; omega)]
    rw [htake, Pair.ofTokens_append, Pair.ofTokens_opening, Pair.ofTokens_eq_zero_iff.2 hinner, Pair.add_def] at hopened
    simp [Pair.zero_def] at hopened

/-- an opening token is unmatched exactly if nothing that was open is closed behind it -/
theorem mem_unmatchedOpenings_iff :
    i ∈ unmatchedOpenings tokens ↔ tokens[i]? = some .opening ∧ (Pair.ofTokens (tokens.drop (i + 1))).closed = 0 := by
  refine and_congr_right fun hi => ?_
  obtain ⟨hlt, hget⟩ := List.getElem?_eq_some_iff.1 hi
  have hsplit : tokens = tokens.take i ++ .opening :: tokens.drop (i + 1) := by
    rw [← hget]
    simp
  constructor
  · intro hnone
    by_contra hclosed
    obtain ⟨inner, back, hdrop, hinner⟩ := Pair.exists_first_closing (Nat.pos_of_ne_zero hclosed)
    refine hnone (i + 1 + inner.length) ⟨tokens.take i, inner, back, ?_, Pair.ofTokens_eq_zero_iff.1 hinner, ?_, ?_⟩
    · rwa [hdrop] at hsplit
    · rw [List.length_take_of_le hlt.le]
    · rw [List.length_take_of_le hlt.le]
  · rintro hclosed j ⟨front, inner, back, hall, hinner, rfl, -⟩
    have hdrop : tokens.drop (front.length + 1) = inner ++ .closing :: back := by
      rw [hall, List.drop_append]
      simp
    rw [hdrop, Pair.ofTokens_append, Pair.ofTokens_eq_zero_iff.2 hinner, zero_add, Pair.ofTokens_closing] at hclosed
    cases hclosed

theorem unmatchedClosings_finite (tokens : List Token) : (unmatchedClosings tokens).Finite :=
  (Set.finite_lt_nat tokens.length).subset fun _ hj => (List.getElem?_eq_some_iff.1 hj.1).1

theorem unmatchedOpenings_finite (tokens : List Token) : (unmatchedOpenings tokens).Finite :=
  (Set.finite_lt_nat tokens.length).subset fun _ hi => (List.getElem?_eq_some_iff.1 hi.1).1

/-- one more token at the end changes nothing for those before it -/
theorem unmatchedClosings_snoc (tokens : List Token) (token : Token) :
    unmatchedClosings (tokens ++ [token]) = {j | j = tokens.length ∧ token = .closing ∧ (Pair.ofTokens tokens).opened = 0} ∪
      unmatchedClosings tokens := by
  ext j
  rw [Set.mem_union, Set.mem_ofPred_eq, mem_unmatchedClosings_iff, mem_unmatchedClosings_iff]
  rcases Nat.lt_trichotomy j tokens.length with hlt | rfl | hgt
  · rw [List.getElem?_append_left hlt, List.take_append_of_le_length hlt.le]
    simp [hlt.ne]
  · simp
  · have hnone : (tokens ++ [token])[j]? = none := by simp; omega
    have hnone' : tokens[j]? = none := by simp; omega
    simp [hnone, hnone', hgt.ne']

/-- one more token in front changes nothing for those behind it -/
theorem unmatchedOpenings_cons (token : Token) (tokens : List Token) :
    unmatchedOpenings (token :: tokens) = {i | i = 0 ∧ token = .opening ∧ (Pair.ofTokens tokens).closed = 0} ∪
      (unmatchedOpenings tokens).image Nat.succ := by
  ext i
  rw [Set.mem_union, Set.mem_ofPred_eq, mem_unmatchedOpenings_iff]
  cases i with
  | zero => simp
  | succ i =>
    rw [Set.mem_image, List.getElem?_cons_succ, List.drop_succ_cons, ← mem_unmatchedOpenings_iff]
    simp

/-- **What a counter says is closed are the closing tokens without a partner.** -/
theorem closed_ofTokens (tokens : List Token) : (Pair.ofTokens tokens).closed = (unmatchedClosings tokens).ncard := by
  induction tokens using List.reverseRecOn with
  | nil => simp [unmatchedClosings, Pair.ofTokens]
  | append_singleton front token ih =>
    rw [unmatchedClosings_snoc]
    cases token with
    | opening => simp [Pair.ofTokens_snoc_opening, ih]
    | closing =>
      rw [Pair.ofTokens_snoc_closing]
      rcases Nat.eq_zero_or_pos (Pair.ofTokens front).opened with hopened | hopened
      · have hnew : front.length ∉ unmatchedClosings front := fun hin => by
          simpa using (mem_unmatchedClosings_iff.1 hin).1
        simp only [hopened, and_self, and_true, Set.ofPred_eq_eq_singleton, Set.singleton_union]
        rw [Set.ncard_insert_of_notMem hnew (unmatchedClosings_finite front), ih]
      · simp [Nat.ne_of_gt hopened, ih, Nat.sub_eq_zero_of_le hopened]

/-- **What a counter says is open are the opening tokens without a partner.** -/
theorem opened_ofTokens (tokens : List Token) : (Pair.ofTokens tokens).opened = (unmatchedOpenings tokens).ncard := by
  induction tokens with
  | nil => simp [unmatchedOpenings, Pair.ofTokens]
  | cons token tokens ih =>
    have hcount : ((unmatchedOpenings tokens).image Nat.succ).ncard = (Pair.ofTokens tokens).opened := by
      rw [Set.ncard_image_of_injective _ Nat.succ_injective, ih]
    rw [unmatchedOpenings_cons]
    cases token with
    | closing => simp [Pair.ofTokens_closing, hcount]
    | opening =>
      rw [Pair.ofTokens_opening]
      rcases Nat.eq_zero_or_pos (Pair.ofTokens tokens).closed with hclosed | hclosed
      · have hnew : 0 ∉ (unmatchedOpenings tokens).image Nat.succ := by simp
        simp only [hclosed, and_self, and_true, Set.ofPred_eq_eq_singleton, Set.singleton_union]
        rw [Set.ncard_insert_of_notMem hnew ((unmatchedOpenings_finite tokens).image _), hcount]
        omega
      · simp [Nat.ne_of_gt hclosed, hcount, Nat.sub_eq_zero_of_le hclosed]

end Linewise
