/-
Counters in words.

A program keeps counters in words of 64 bits, and a number that is too large for one goes on from zero. A counter in words
stands for natural numbers (`Pair.exact`), and a sum of two is the exact sum in words (`Pair.add_eq`), for nothing is ever
taken away that is not there. All the rest follows from that, for pairs, tallies and tallies of many kinds alike
(`InWords`):
- the default ones add nothing, whatever the other side is;
- a sum that fits into words is exact, and where the sums of neighbours fit, three may be grouped either way. Where one does
  not fit they may not: what has wrapped to zero cannot be closed any more (`Pair.grouping_matters`);
- a sequence of fewer than 2⁶⁴ tokens fits, and so does each piece of it; so in whatever way it is cut, and its pieces are
  grouped, their counters sum up to that of the sequence (`InWords.summed`).

Main statement: `counters_combine`.
-/
import Linewise.Proofs.Balance.Unmatched

namespace Linewise

/-! ## Reckoning in words -/

/-- values in words stand for exact ones: they are added by way of these, and those that fit keep what they are -/
structure InWords {W E : Type} [Add W] [Add E] (exact : W → E) (words : E → W) (Fits : E → Prop) : Prop where
  add_eq : ∀ a b, a + b = words (exact a + exact b)
  exact_words : ∀ e, Fits e → exact (words e) = e

/-- a total for a sequence: its own value, or the sum of totals for two pieces of it, cut and grouped in any way -/
inductive Summed {α W : Type} [Add W] (f : List α → W) : List α → W → Prop
  | whole (xs : List α) : Summed f xs (f xs)
  | cut {front back : List α} {a b : W} : Summed f front a → Summed f back b → Summed f (front ++ back) (a + b)

namespace InWords

variable {W E : Type} [Add W] {exact : W → E} {words : E → W} {Fits : E → Prop}

section Add

variable [Add E] (h : InWords exact words Fits)
include h

theorem exact_add {a b : W} (hfits : Fits (exact a + exact b)) : exact (a + b) = exact a + exact b := by
  rw [h.add_eq, h.exact_words _ hfits]

/-- **However a sequence is cut, its pieces sum up to it**, if values of sequences shorter than a bound fit. -/
theorem summed {α : Type} {f : List α → W} {g : List α → E} {bound : Nat}
    (hf : ∀ xs, xs.length < bound → f xs = words (g xs)) (hfits : ∀ xs, xs.length < bound → Fits (g xs))
    (happend : ∀ front back, g (front ++ back) = g front + g back) {xs : List α} {total : W} (hsum : Summed f xs total)
    (hlength : xs.length < bound) : total = f xs := by
  induction hsum with
  | whole xs => rfl
  | @cut front back a b _ _ ihfront ihback =>
    rw [List.length_append] at hlength
    have hfront : front.length < bound := Nat.lt_of_le_of_lt (Nat.le_add_right _ _) hlength
    have hback : back.length < bound := Nat.lt_of_le_of_lt (Nat.le_add_left _ _) hlength
    calc a + b
        = f front + f back := by rw [ihfront hfront, ihback hback]
      _ = words (exact (f front) + exact (f back)) := h.add_eq _ _
      _ = words (g front + g back) := by
        rw [hf front hfront, hf back hback, h.exact_words _ (hfits front hfront), h.exact_words _ (hfits back hback)]
      _ = f (front ++ back) := by rw [← happend, hf _ (by rwa [List.length_append])]

end Add

/-- **Grouping does not matter where the sums of neighbours fit**, even if the sum of all three does not. -/
theorem regroup [AddSemigroup E] (h : InWords exact words Fits) {a b c : W} (hab : Fits (exact a + exact b))
    (hbc : Fits (exact b + exact c)) : a + b + c = a + (b + c) := by
  calc a + b + c
      = words (exact (a + b) + exact c) := h.add_eq _ _
    _ = words (exact a + exact b + exact c) := by rw [h.exact_add hab]
    _ = words (exact a + exact (b + c)) := by rw [h.exact_add hbc, add_assoc]
    _ = a + (b + c) := (h.add_eq _ _).symm

end InWords

/-! ## Pairs -/

namespace Pair

/-- the natural numbers in a pair of words -/
def exact (p : Pair UInt64) : Pair := ⟨p.opened.toNat, p.closed.toNat⟩

/-- a pair in words -/
def words (p : Pair) : Pair UInt64 := ⟨.ofNat p.opened, .ofNat p.closed⟩

/-- both counters are small enough for words -/
def Fits (p : Pair) : Prop := p.opened < 2 ^ 64 ∧ p.closed < 2 ^ 64

theorem words_exact (p : Pair UInt64) : p.exact.words = p := by
  simp only [words, exact, UInt64.ofNat_toNat]

theorem exact_words {p : Pair} (h : p.Fits) : p.words.exact = p := by
  simp only [words, exact, UInt64.toNat_ofNat', Nat.mod_eq_of_lt h.1, Nat.mod_eq_of_lt h.2]

/-- **A sum in words is the exact sum, in words.** -/
theorem add_eq (p q : Pair UInt64) : p + q = (p.exact + q.exact).words := by
  have hmatched : UInt64.ofNat (min p.opened.toNat q.closed.toNat) = min p.opened q.closed := by
    rw [← UInt64.toNat_min, UInt64.ofNat_toNat]
  -- what is matched was opened on one side and closed on the other
  have hopened : min p.opened.toNat q.closed.toNat ≤ p.opened.toNat := Nat.min_le_left _ _
  have hclosed : min p.opened.toNat q.closed.toNat ≤ p.closed.toNat + q.closed.toNat :=
    Nat.le_trans (Nat.min_le_right _ _) (Nat.le_add_left _ _)
  simp only [add_def, words, exact, UInt64.ofNat_add, UInt64.ofNat_sub hopened, UInt64.ofNat_sub hclosed, hmatched,
    UInt64.ofNat_toNat]
  rfl

theorem inWords : InWords exact words Fits := ⟨add_eq, fun _ => exact_words⟩

/-- counting a token in words is counting it exactly, in words -/
theorem count_eq (p : Pair UInt64) (token : Token) : p.count token = (p.exact.count token).words := by
  cases token with
  | opening =>
    have hexact : p.exact.count .opening = ⟨p.opened.toNat + 1, p.closed.toNat⟩ := rfl
    rw [hexact, words, UInt64.ofNat_add, UInt64.ofNat_toNat, UInt64.ofNat_toNat]
    rfl
  | closing =>
    have hcount : p.count .closing = if 0 < p.opened then ⟨p.opened - 1, p.closed⟩ else ⟨p.opened, p.closed + 1⟩ := rfl
    have hexact : p.exact.count .closing =
        if 0 < p.opened.toNat then ⟨p.opened.toNat - 1, p.closed.toNat⟩ else ⟨p.opened.toNat, p.closed.toNat + 1⟩ := rfl
    have hpos : 0 < p.opened ↔ 0 < p.opened.toNat := UInt64.lt_iff_toNat_lt
    rw [hcount, hexact]
    by_cases hopened : 0 < p.opened
    · have hone : 1 ≤ p.opened.toNat := hpos.1 hopened
      rw [if_pos hopened, if_pos (hpos.1 hopened), words, UInt64.ofNat_sub hone, UInt64.ofNat_toNat, UInt64.ofNat_toNat]
      rfl
    · rw [if_neg hopened, if_neg (mt hpos.2 hopened), words, UInt64.ofNat_add, UInt64.ofNat_toNat, UInt64.ofNat_toNat]
      rfl

/-- the counters of tokens, in words -/
def wordsOfTokens (tokens : List Token) : Pair UInt64 := tokens.foldl count {}

/-- no more is counted than there are tokens -/
theorem ofTokens_le (tokens : List Token) :
    (ofTokens tokens).opened ≤ tokens.length ∧ (ofTokens tokens).closed ≤ tokens.length := by
  induction tokens using List.reverseRecOn with
  | nil => exact ⟨Nat.le_refl _, Nat.le_refl _⟩
  | append_singleton front token ih =>
    cases token with
    | opening => simp only [ofTokens_snoc_opening, List.length_append, List.length_singleton]; omega
    | closing => simp only [ofTokens_snoc_closing, List.length_append, List.length_singleton]; omega

theorem fits_ofTokens {tokens : List Token} (h : tokens.length < 2 ^ 64) : (ofTokens tokens).Fits :=
  ⟨Nat.lt_of_le_of_lt (ofTokens_le tokens).1 h, Nat.lt_of_le_of_lt (ofTokens_le tokens).2 h⟩

/-- **Tokens are counted in words as they are exactly**, unless there are more than words can count. -/
theorem wordsOfTokens_eq {tokens : List Token} (h : tokens.length < 2 ^ 64) :
    wordsOfTokens tokens = (ofTokens tokens).words := by
  induction tokens using List.reverseRecOn with
  | nil => rfl
  | append_singleton front token ih =>
    rw [List.length_append, List.length_singleton] at h
    have hfront : front.length < 2 ^ 64 := Nat.lt_of_succ_lt h
    calc wordsOfTokens (front ++ [token])
        = (wordsOfTokens front).count token := by rw [wordsOfTokens, List.foldl_append]; rfl
      _ = ((wordsOfTokens front).exact.count token).words := count_eq _ _
      _ = ((ofTokens front).count token).words := by rw [ih hfront, exact_words (fits_ofTokens hfront)]
      _ = (ofTokens (front ++ [token])).words := by rw [ofTokens, ofTokens, List.foldl_append]; rfl

theorem exact_wordsOfTokens {tokens : List Token} (h : tokens.length < 2 ^ 64) :
    (wordsOfTokens tokens).exact = ofTokens tokens := by
  rw [wordsOfTokens_eq h, exact_words (fits_ofTokens h)]

end Pair

/-! ## Tallies -/

namespace Tally

/-- the natural numbers in a tally of words -/
def exact (t : Tally UInt64) : Tally := ⟨t.plain.exact, t.commented.exact⟩

/-- a tally in words -/
def words (t : Tally) : Tally UInt64 := ⟨t.plain.words, t.commented.words⟩

/-- both pairs are small enough for words -/
def Fits (t : Tally) : Prop := t.plain.Fits ∧ t.commented.Fits

theorem words_exact (t : Tally UInt64) : t.exact.words = t := by
  simp only [words, exact, Pair.words_exact]

theorem exact_words {t : Tally} (h : t.Fits) : t.words.exact = t := by
  simp only [words, exact, Pair.exact_words h.1, Pair.exact_words h.2]

theorem add_eq (s t : Tally UInt64) : s + t = (s.exact + t.exact).words := by
  have hsum : s + t = ⟨s.plain + t.plain, s.commented + t.commented⟩ := rfl
  rw [hsum, Pair.add_eq, Pair.add_eq]
  rfl

theorem inWords : InWords exact words Fits := ⟨add_eq, fun _ => exact_words⟩

/-- the counters of tokens, in words -/
def wordsOfTokens (tokens : List (Bool × Token)) : Tally UInt64 := tokens.foldl count {}

theorem length_tokensIn_le (commented : Bool) (tokens : List (Bool × Token)) :
    (tokensIn commented tokens).length ≤ tokens.length := by
  rw [tokensIn, List.length_map]
  exact List.length_filter_le _ _

/-- contexts are counted on their own -/
theorem pair_wordsOfTokens (tokens : List (Bool × Token)) (commented : Bool) :
    (wordsOfTokens tokens).pair commented = Pair.wordsOfTokens (tokensIn commented tokens) := by
  induction tokens using List.reverseRecOn with
  | nil => cases commented <;> rfl
  | append_singleton front token ih =>
    obtain ⟨context, token⟩ := token
    have hlast : wordsOfTokens (front ++ [(context, token)]) = (wordsOfTokens front).modify context (·.count token) := by
      rw [wordsOfTokens, List.foldl_append]
      rfl
    rw [hlast, tokensIn, List.filter_append, List.map_append, Pair.wordsOfTokens, List.foldl_append]
    rw [tokensIn, Pair.wordsOfTokens] at ih
    rw [← ih]
    cases context <;> cases commented <;> rfl

theorem fits_ofTokens {tokens : List (Bool × Token)} (h : tokens.length < 2 ^ 64) : (ofTokens tokens).Fits := by
  rw [ofTokens_eq]
  exact ⟨Pair.fits_ofTokens (Nat.lt_of_le_of_lt (length_tokensIn_le false tokens) h),
    Pair.fits_ofTokens (Nat.lt_of_le_of_lt (length_tokensIn_le true tokens) h)⟩

theorem wordsOfTokens_eq {tokens : List (Bool × Token)} (h : tokens.length < 2 ^ 64) :
    wordsOfTokens tokens = (ofTokens tokens).words := by
  have hplain := Pair.wordsOfTokens_eq (Nat.lt_of_le_of_lt (length_tokensIn_le false tokens) h)
  have hcommented := Pair.wordsOfTokens_eq (Nat.lt_of_le_of_lt (length_tokensIn_le true tokens) h)
  rw [← pair_wordsOfTokens] at hplain hcommented
  rw [ofTokens_eq, words, ← hplain, ← hcommented]
  rfl

end Tally

namespace Tallies

/-- the natural numbers in tallies of words -/
def exact (ts : Tallies UInt64) : Tallies := ⟨ts.items.map Tally.exact⟩

/-- tallies in words -/
def words (ts : Tallies) : Tallies UInt64 := ⟨ts.items.map Tally.words⟩

/-- all tallies are small enough for words -/
def Fits (ts : Tallies) : Prop := ∀ t ∈ ts.items, t.Fits

theorem map_words_exact (ts : List (Tally UInt64)) : (ts.map Tally.exact).map Tally.words = ts := by
  rw [List.map_map]
  exact (List.map_congr_left fun t _ => Tally.words_exact t).trans (List.map_id ts)

theorem exact_words {ts : Tallies} (h : ts.Fits) : ts.words.exact = ts := by
  rw [exact, words, List.map_map]
  exact congrArg mk ((List.map_congr_left fun t ht => Tally.exact_words (h t ht)).trans (List.map_id ts.items))

theorem addItems_eq (ss ts : List (Tally UInt64)) :
    addItems ss ts = (addItems (ss.map Tally.exact) (ts.map Tally.exact)).map Tally.words := by
  induction ss generalizing ts with
  | nil => exact (map_words_exact ts).symm
  | cons s ss ih =>
    cases ts with
    | nil => exact (map_words_exact (s :: ss)).symm
    | cons t ts => simp only [addItems, List.map_cons, Tally.add_eq, ih]

theorem add_eq (ss ts : Tallies UInt64) : ss + ts = (ss.exact + ts.exact).words :=
  congrArg mk (addItems_eq ss.items ts.items)

theorem inWords : InWords exact words Fits := ⟨add_eq, fun _ => exact_words⟩

end Tallies

/-! ## Counters combine -/

/-- where sums fit into words they are exact and may be grouped either way, and the default value adds nothing -/
structure Combines {W E : Type} [Add W] [Add E] [Inhabited W] (exact : W → E) (Fits : E → Prop) : Prop where
  exact_add : ∀ a b, Fits (exact a + exact b) → exact (a + b) = exact a + exact b
  assoc : ∀ a b c, Fits (exact a + exact b) → Fits (exact b + exact c) → a + b + c = a + (b + c)
  default_add : ∀ a : W, default + a = a
  add_default : ∀ a : W, a + default = a

theorem Combines.of_inWords {W E : Type} [Add W] [AddMonoid E] [Inhabited W] {exact : W → E} {words : E → W}
    {Fits : E → Prop} (h : InWords exact words Fits) (hback : ∀ w, words (exact w) = w) (hzero : exact default = 0) :
    Combines exact Fits where
  exact_add a b := h.exact_add
  assoc a b c := h.regroup
  default_add a := by rw [h.add_eq, hzero, zero_add, hback]
  add_default a := by rw [h.add_eq, hzero, add_zero, hback]

/-- **Counters in words combine, and counting goes piece by piece.** For pairs, tallies and tallies of many kinds, as many as
there are on either side, the default value adds nothing; three may be summed in either grouping as long as no counter of
the first two or of the last two is too large for a word. However a sequence of fewer than 2⁶⁴ tokens is cut, the counters
of the pieces sum up, in any grouping, to that of the sequence, which says how many closing and how many opening tokens have
no partner in it. If tokens are in comments or not, each context is counted so on its own. -/
theorem counters_combine :
    (Combines Pair.exact Pair.Fits ∧ Combines Tally.exact Tally.Fits ∧ Combines Tallies.exact Tallies.Fits) ∧
    (∀ (tokens : List Token) (total : Pair UInt64), tokens.length < 2 ^ 64 → Summed Pair.wordsOfTokens tokens total →
      total = Pair.wordsOfTokens tokens ∧ total.closed.toNat = (unmatchedClosings tokens).ncard ∧
        total.opened.toNat = (unmatchedOpenings tokens).ncard) ∧
    ∀ (tokens : List (Bool × Token)) (total : Tally UInt64), tokens.length < 2 ^ 64 →
      Summed Tally.wordsOfTokens tokens total →
      total = Tally.wordsOfTokens tokens ∧
        ∀ commented, total.pair commented = Pair.wordsOfTokens (Tally.tokensIn commented tokens) := by
  refine ⟨⟨.of_inWords Pair.inWords Pair.words_exact rfl, .of_inWords Tally.inWords Tally.words_exact rfl,
    .of_inWords Tallies.inWords (fun ts => congrArg Tallies.mk (Tallies.map_words_exact ts.items)) rfl⟩, ?_, ?_⟩
  · intro tokens total hlength hsum
    have htotal : total = Pair.wordsOfTokens tokens :=
      Pair.inWords.summed (fun _ => Pair.wordsOfTokens_eq) (fun _ => Pair.fits_ofTokens) Pair.ofTokens_append hsum hlength
    have hexact := Pair.exact_wordsOfTokens hlength
    rw [← htotal] at hexact
    refine ⟨htotal, ?_, ?_⟩
    · rw [← closed_ofTokens, ← hexact]
      rfl
    · rw [← opened_ofTokens, ← hexact]
      rfl
  · intro tokens total hlength hsum
    have htotal : total = Tally.wordsOfTokens tokens :=
      Tally.inWords.summed (fun _ => Tally.wordsOfTokens_eq) (fun _ => Tally.fits_ofTokens) Tally.ofTokens_append hsum
        hlength
    refine ⟨htotal, fun commented => ?_⟩
    rw [htotal, Tally.pair_wordsOfTokens]

/-- the greatest counter can be closed once and opened again in either grouping; and of two blocks that are opened, with one
closed before them and one after, cut into three, one is left open and one is closed -/
theorem counters_combine_cut :
    (let full : Pair UInt64 := ⟨18446744073709551615, 0⟩; full + ⟨0, 1⟩ + ⟨1, 0⟩ = full + (⟨0, 1⟩ + ⟨1, 0⟩)) ∧
    (⟨0, 1⟩ + (⟨2, 0⟩ + ⟨0, 1⟩) : Pair UInt64) = Pair.wordsOfTokens [.closing, .opening, .opening, .closing] ∧
    (unmatchedClosings [.closing, .opening, .opening, .closing]).ncard = 1 ∧
    (unmatchedOpenings [.closing, .opening, .opening, .closing]).ncard = 1 := by
  obtain ⟨⟨hpairs, -, -⟩, htokens, -⟩ := counters_combine
  have hsum : Summed Pair.wordsOfTokens ([Token.closing] ++ ([.opening, .opening] ++ [.closing]))
      (⟨0, 1⟩ + (⟨2, 0⟩ + ⟨0, 1⟩)) :=
    .cut (.whole [Token.closing]) (.cut (.whole [Token.opening, .opening]) (.whole [Token.closing]))
  obtain ⟨htotal, hclosed, hopened⟩ := htokens _ _ (by decide) hsum
  refine ⟨hpairs.assoc _ _ _ ⟨by decide, by decide⟩ ⟨by decide, by decide⟩, htotal, hclosed.symm, hopened.symm⟩

/-- where a sum of neighbours does not fit the grouping matters: openings that have wrapped to none cannot be closed -/
theorem Pair.grouping_matters :
    let full : Pair UInt64 := ⟨18446744073709551615, 0⟩
    full + ⟨1, 0⟩ + ⟨0, 1⟩ ≠ full + (⟨1, 0⟩ + ⟨0, 1⟩) := by decide

end Linewise
