/-
Reading the parts of a pattern with more text behind it.

A pattern in a group has a closing parenthesis behind it. Every reader of a part takes the same characters with the
parenthesis there as without it, so it gives the same value and leaves the same rest, longer by what stands behind. The
readers stop at the parenthesis or have seen the character that ends their part before they come to it.

The exception is a comment of a verbose pattern that no line feed ends: it swallows the parenthesis
(`Mode.closes_or_swallows`).
-/
import Mathlib.Data.List.TakeWhile
import Mathlib.Tactic.SplitIfs
import Linewise.Regex.Parser

namespace Linewise.Regex

variable {mode : Mode} {text rest : Text} {c : Char} (behind : Text)

theorem dropWhile_append_of_cons {p : Char → Bool} (h : text.dropWhile p = c :: rest) :
    (text ++ behind).dropWhile p = c :: (rest ++ behind) := by
  simp [List.dropWhile_append, h]

theorem takeWhile_append_of_cons {p : Char → Bool} (h : text.dropWhile p = c :: rest) :
    (text ++ behind).takeWhile p = text.takeWhile p := by
  rw [List.takeWhile_append, if_neg]
  intro hlength
  have hall := List.takeWhile_append_dropWhile (p := p) (l := text)
  rw [(List.takeWhile_prefix p).eq_of_length hlength, h] at hall
  simp at hall

theorem dropWhile_paren {p : Char → Bool} (hp : p ')' = false) :
    (text ++ ')' :: behind).dropWhile p = text.dropWhile p ++ ')' :: behind := by
  cases h : text.dropWhile p with
  | nil => simp [List.dropWhile_append, h, hp]
  | cons c rest => exact dropWhile_append_of_cons _ h

theorem takeWhile_paren {p : Char → Bool} (hp : p ')' = false) :
    (text ++ ')' :: behind).takeWhile p = text.takeWhile p := by
  rw [List.takeWhile_append]
  split_ifs with hlength
  · rw [List.takeWhile_cons_of_neg (by simp [hp]), List.append_nil]
    exact ((List.takeWhile_prefix p).eq_of_length hlength).symm
  · rfl

/-- what does not begin with some text does not so with a parenthesis behind it -/
theorem ne_append_paren (front : Text) (hfront : ')' ∉ front) (h : ∀ rest, text ≠ front ++ rest) :
    ∀ rest, text ++ ')' :: behind ≠ front ++ rest := by
  intro rest heq
  induction front generalizing text with
  | nil => exact h text rfl
  | cons a front ih =>
    rw [List.mem_cons, not_or] at hfront
    cases text with
    | nil =>
      cases heq
      exact hfront.1 rfl
    | cons x text =>
      obtain ⟨rfl, htail⟩ := List.cons.inj heq
      exact ih hfront.2 (fun rest hrest => h rest (congrArg (x :: ·) hrest)) htail

/-! ## Blanks and comments -/

namespace Mode

theorem dropComment_of_mem (h : '\n' ∈ text) : dropComment (text ++ behind) = dropComment text ++ behind := by
  induction text with
  | nil => cases h
  | cons c text ih =>
    by_cases hc : c = '\n'
    · simp [dropComment, hc]
    · have htext : '\n' ∈ text := (List.mem_cons.1 h).resolve_left fun heq => hc heq.symm
      simp [dropComment, hc, ih htext]

theorem dropComment_of_not_mem (h : '\n' ∉ text) : dropComment (text ++ behind) = dropComment behind := by
  induction text with
  | nil => rfl
  | cons c text ih =>
    rw [List.mem_cons, not_or] at h
    have hc : c ≠ '\n' := fun heq => h.1 heq.symm
    simp [dropComment, hc, ih h.2]

theorem dropComment_eq_nil (h : '\n' ∉ text) : dropComment text = [] := by
  rw [← List.append_nil text, dropComment_of_not_mem _ h, dropComment]

theorem dropComment_length_le (text : Text) : (dropComment text).length ≤ text.length := by
  induction text with
  | nil => exact Nat.le_refl _
  | cons c text ih =>
    rw [dropComment]
    split_ifs
    · exact Nat.le_succ _
    · exact Nat.le_succ_of_le ih

theorem dropSpace_nil (n : Nat) : dropSpace n [] = [] := by
  cases n <;> rfl

theorem dropSpace_of_hash (n : Nat) (h : text.dropWhile Text.isBlank = '#' :: rest) :
    dropSpace (n + 1) text = dropSpace n (dropComment rest) := by
  simp only [dropSpace, h]

theorem dropSpace_of_head (n : Nat) (h : text.dropWhile Text.isBlank = c :: rest) (hc : c ≠ '#') :
    dropSpace (n + 1) text = c :: rest := by
  simp only [dropSpace, h]
  split
  · simp_all
  · rfl

theorem dropSpace_paren {m : Nat} {behind : Text} (h : text.dropWhile Text.isBlank = ')' :: behind) (hm : text.length ≤ m) :
    dropSpace m text = ')' :: behind := by
  have hle := (List.dropWhile_suffix Text.isBlank (l := text)).length_le
  rw [h, List.length_cons] at hle
  obtain ⟨k, rfl⟩ := Nat.exists_eq_succ_of_ne_zero (by omega : m ≠ 0)
  exact dropSpace_of_head k h (by decide)

/-- behind blanks and a comment mark there is less text -/
theorem length_of_hash (h : text.dropWhile Text.isBlank = '#' :: rest) : (dropComment rest).length < text.length := by
  have hle := (List.dropWhile_suffix Text.isBlank (l := text)).length_le
  rw [h, List.length_cons] at hle
  exact Nat.lt_of_le_of_lt (dropComment_length_le rest) hle

/-- a finished comment is skipped whatever stands behind -/
theorem dropSpace_comment {m : Nat} (h : text.dropWhile Text.isBlank = '#' :: rest) (hfeed : '\n' ∈ rest)
    (hm : (text ++ behind).length ≤ m) : ∃ k, (dropComment rest ++ behind).length ≤ k ∧
      dropSpace m (text ++ behind) = dropSpace k (dropComment rest ++ behind) := by
  have h' := dropWhile_append_of_cons behind h
  have hlt := length_of_hash h'
  rw [dropComment_of_mem _ hfeed] at hlt
  obtain ⟨k, rfl⟩ := Nat.exists_eq_succ_of_ne_zero (by omega : m ≠ 0)
  exact ⟨k, by omega, by rw [dropSpace_of_hash k h', dropComment_of_mem _ hfeed]⟩

theorem dropSpace_append {m n : Nat} (hn : text.length ≤ n) (h : dropSpace n text = c :: rest)
    (hm : (text ++ behind).length ≤ m) : dropSpace m (text ++ behind) = c :: (rest ++ behind) := by
  induction n generalizing m text with
  | zero =>
    rw [List.length_eq_zero_iff.1 (Nat.le_zero.1 hn)] at h
    cases h
  | succ n ih =>
    cases hblank : text.dropWhile Text.isBlank with
    | nil => simp [dropSpace, hblank] at h
    | cons x inner =>
      by_cases hx : x = '#'
      · subst hx
        rw [dropSpace_of_hash n hblank] at h
        have hfeed : '\n' ∈ inner := by
          refine Decidable.byContradiction fun hnot => ?_
          rw [dropComment_eq_nil hnot, dropSpace_nil] at h
          cases h
        have hlt := length_of_hash hblank
        obtain ⟨k, hk, hsame⟩ := dropSpace_comment _ hblank hfeed hm
        rw [hsame, ih (by omega) h hk]
      · rw [dropSpace_of_head n hblank hx] at h
        cases h
        have hblank' := dropWhile_append_of_cons behind hblank
        have hne : m ≠ 0 := by
          rintro rfl
          rw [List.length_eq_zero_iff.1 (Nat.le_zero.1 hm)] at hblank'
          cases hblank'
        obtain ⟨k, rfl⟩ := Nat.exists_eq_succ_of_ne_zero hne
        exact dropSpace_of_head k hblank' hx

/-- blanks and comments to the end: a parenthesis behind them is seen, or the last comment swallows what has no line
feed -/
theorem dropSpace_all {n : Nat} (hn : text.length ≤ n) (h : dropSpace n text = []) :
    (∀ m behind, (text ++ ')' :: behind).length ≤ m → dropSpace m (text ++ ')' :: behind) = ')' :: behind) ∨
      ∀ m behind, '\n' ∉ behind → (text ++ behind).length ≤ m → dropSpace m (text ++ behind) = [] := by
  induction n generalizing text with
  | zero =>
    rw [List.length_eq_zero_iff.1 (Nat.le_zero.1 hn)]
    exact .inl fun m behind hm => dropSpace_paren (List.dropWhile_cons_of_neg (by decide)) hm
  | succ n ih =>
    cases hblank : text.dropWhile Text.isBlank with
    | nil =>
      refine .inl fun m behind hm => dropSpace_paren ?_ hm
      rw [dropWhile_paren _ (by decide), hblank, List.nil_append]
    | cons x inner =>
      by_cases hx : x = '#'
      · subst hx
        rw [dropSpace_of_hash n hblank] at h
        by_cases hfeed : '\n' ∈ inner
        · have hlt := length_of_hash hblank
          rcases ih (by omega) h with hseen | hswallowed
          · refine .inl fun m behind hm => ?_
            obtain ⟨k, hk, hsame⟩ := dropSpace_comment _ hblank hfeed hm
            rw [hsame, hseen k behind hk]
          · refine .inr fun m behind hnot hm => ?_
            obtain ⟨k, hk, hsame⟩ := dropSpace_comment _ hblank hfeed hm
            rw [hsame, hswallowed k behind hnot hk]
        · -- the comment is open
          refine .inr fun m behind hnot hm => ?_
          have hblank' := dropWhile_append_of_cons behind hblank
          have hlt := length_of_hash hblank'
          obtain ⟨k, rfl⟩ := Nat.exists_eq_succ_of_ne_zero (by omega : m ≠ 0)
          rw [dropSpace_of_hash k hblank', dropComment_of_not_mem _ hfeed, dropComment_eq_nil hnot, dropSpace_nil]
      · rw [dropSpace_of_head n hblank hx] at h
        cases h

/-- no comment is left open: a closing parenthesis behind the text is seen -/
def Closes (mode : Mode) (text : Text) : Prop :=
  ∀ behind, mode.skip (text ++ ')' :: behind) = mode.skip text ++ ')' :: behind

theorem skip_append (h : mode.skip text = c :: rest) :
    mode.skip (text ++ behind) = c :: (rest ++ behind) := by
  rw [skip] at h ⊢
  split_ifs at h ⊢
  · exact dropSpace_append _ (Nat.le_refl _) h (Nat.le_refl _)
  · rw [h, List.cons_append]

/-- a parenthesis behind the text is seen, or the text ends in a comment that swallows all up to a line feed -/
theorem closes_or_swallows (mode : Mode) (text : Text) :
    mode.Closes text ∨ (mode.skip text = [] ∧ ∀ behind, '\n' ∉ behind → mode.skip (text ++ behind) = []) := by
  cases hskip : mode.skip text with
  | cons c rest =>
    left
    intro behind
    rw [skip_append _ hskip, hskip, List.cons_append]
  | nil =>
    cases hverbose : mode.verbose with
    | false =>
      left
      intro behind
      simp [skip, hverbose]
    | true =>
      rw [skip, if_pos hverbose] at hskip
      refine (dropSpace_all (Nat.le_refl _) hskip).imp ?_ ?_
      · intro hseen behind
        rw [skip, skip, if_pos hverbose, if_pos hverbose, hskip, hseen _ behind (Nat.le_refl _), List.nil_append]
      · intro hswallowed
        refine ⟨rfl, fun behind hnot => ?_⟩
        rw [skip, if_pos hverbose, hswallowed _ behind hnot (Nat.le_refl _)]

theorem skip_nil (mode : Mode) : mode.skip [] = [] := by
  simp [skip, dropSpace_nil]

theorem dropSpace_length_le (n : Nat) (text : Text) : (dropSpace n text).length ≤ text.length := by
  induction n generalizing text with
  | zero => exact Nat.le_refl _
  | succ n ih =>
    have hle := (List.dropWhile_suffix Text.isBlank (l := text)).length_le
    rw [dropSpace]
    split
    · next rest hblank => exact Nat.le_trans (ih _) (Nat.le_of_lt (length_of_hash hblank))
    · exact hle

theorem skip_length_le (mode : Mode) (text : Text) : (mode.skip text).length ≤ text.length := by
  rw [skip]
  split_ifs
  · exact dropSpace_length_le _ _
  · exact Nat.le_refl _

end Mode

/-! ## Escapes -/

namespace Atom

variable {atom : Atom} {n value value' : Nat}

theorem readDigits_append (h : readDigits mode n value text = some (value', rest)) :
    readDigits mode n value (text ++ behind) = some (value', rest ++ behind) := by
  induction n generalizing value text with
  | zero =>
    cases h
    rfl
  | succ n ih =>
    rw [readDigits] at h ⊢
    cases hskip : mode.skip text with
    | nil => simp [hskip] at h
    | cons c inner =>
      simp only [hskip, Mode.skip_append _ hskip] at h ⊢
      cases hdigit : hexDigit? c with
      | none => simp [hdigit] at h
      | some digit =>
        simp only [hdigit] at h ⊢
        exact ih h

theorem readBraced_append {m : Nat} {sofar : Option Nat} (hle : n ≤ m)
    (h : readBraced mode n sofar text = some (value, rest)) :
    readBraced mode m sofar (text ++ behind) = some (value, rest ++ behind) := by
  induction n generalizing m sofar text with
  | zero => cases h
  | succ n ih =>
    obtain ⟨m, rfl⟩ := Nat.exists_eq_succ_of_ne_zero (by omega : m ≠ 0)
    rw [readBraced] at h ⊢
    cases hskip : mode.skip text with
    | nil => simp [hskip] at h
    | cons c inner =>
      simp only [hskip, Mode.skip_append _ hskip] at h ⊢
      by_cases hc : c = '\x7D'
      · subst hc
        obtain ⟨_, hsofar, hresult⟩ := Option.map_eq_some_iff.1 h
        cases hresult
        simp [hsofar]
      · cases hdigit : hexDigit? c with
        | none => simp [hdigit] at h
        | some digit =>
          simp only [hdigit] at h ⊢
          exact ih (by omega) h

theorem readHex_append {digits : Nat} (hdigits : digits ≠ 0) (h : readHex mode digits text = some (atom, rest)) :
    readHex mode digits (text ++ behind) = some (atom, rest ++ behind) := by
  cases hskip : mode.skip text with
  | nil =>
    obtain ⟨k, rfl⟩ := Nat.exists_eq_succ_of_ne_zero hdigits
    simp [readHex, hskip, readDigits, Mode.skip_nil] at h
  | cons c inner =>
    have hskip' := Mode.skip_append behind hskip
    by_cases hc : c = '\x7B'
    · subst hc
      simp only [readHex, hskip, hskip', Option.bind_eq_bind, Option.bind_eq_some_iff] at h ⊢
      obtain ⟨⟨value, rest'⟩, hread, atom', hcode, hresult⟩ := h
      cases hresult
      exact ⟨(value, rest' ++ behind), readBraced_append _ (by simp) hread, atom, hcode, rfl⟩
    · simp only [readHex, hskip, hskip', List.cons.injEq, hc, false_and, false_imp_iff, implies_true, Option.bind_eq_bind,
        Option.bind_eq_some_iff] at h ⊢
      obtain ⟨⟨value, rest'⟩, hread, atom', hcode, hresult⟩ := h
      cases hresult
      exact ⟨(value, rest' ++ behind), readDigits_append _ hread, atom, hcode, rfl⟩

theorem readEdge_append (h : readEdge mode text = some (atom, rest)) :
    readEdge mode (text ++ ')' :: behind) = some (atom, rest ++ ')' :: behind) := by
  cases text with
  | nil =>
    cases h
    rfl
  | cons c inner =>
    by_cases hc : c = '\x7B'
    · subst hc
      rw [List.cons_append]
      simp only [readEdge] at h ⊢
      cases hskip : mode.skip inner with
      | nil => simp [hskip] at h
      | cons x tail =>
        simp only [hskip, Mode.skip_append _ hskip] at h ⊢
        split_ifs at h ⊢ with hx
        · cases htail : tail.dropWhile isEdgeName with
          | nil => simp [htail] at h
          | cons y after =>
            have htake : (x :: (tail ++ ')' :: behind)).takeWhile isEdgeName = (x :: tail).takeWhile isEdgeName := by
              rw [← List.cons_append, takeWhile_paren _ rfl]
            simp only [htail, htake, dropWhile_append_of_cons (')' :: behind) htail] at h ⊢
            split at h
            · simp_all
            · cases h
        · cases h
          rfl
    · simp only [readEdge, List.cons_append, List.cons.injEq, hc, false_and, false_imp_iff, implies_true] at h ⊢
      cases h
      rfl

theorem readEscape_append (h : readEscape mode text = some (atom, rest)) :
    readEscape mode (text ++ ')' :: behind) = some (atom, rest ++ ')' :: behind) := by
  cases text with
  | nil => cases h
  | cons c inner =>
    rw [List.cons_append]
    simp only [readEscape] at h ⊢
    split at h
    -- code points, word boundaries and plain characters read on; the other escapes are one letter
    case h_7 | h_8 | h_9 => exact readHex_append _ (by decide) h
    case h_18 => exact readEdge_append _ h
    case h_22 =>
      split_ifs at h ⊢
      cases h
      rfl
    all_goals
      cases h
      rfl

end Atom

/-! ## Bracket expressions -/

/-- the name of a set has no parenthesis -/
theorem CharSet.ofName?_paren {name : Text} (h : ')' ∈ name) : CharSet.ofName? (String.ofList name) = none := by
  cases hname : CharSet.ofName? (String.ofList name) with
  | none => rfl
  | some s =>
    exfalso
    have hlist : (String.ofList name).toList = name := String.toList_ofList
    rw [← hlist] at h
    revert h
    unfold CharSet.ofName? at hname
    split at hname
    case h_15 => cases hname
    all_goals
      rename_i heq
      rw [heq]
      decide

namespace Bracket

variable {s : CharSet}

/-- a name that the text does not end would hold the parenthesis -/
theorem readNamed_paren (mode : Mode) (text : Text) :
    readNamed mode ('[' :: (text ++ ')' :: behind)) =
      (readNamed mode ('[' :: text)).map fun (s, rest) => (s, rest ++ ')' :: behind) := by
  cases text with
  | nil => rfl
  | cons c body =>
    by_cases hc : c = ':'
    · subst hc
      simp only [List.cons_append, readNamed]
      have hnegated : ((body ++ ')' :: behind).head? == some '^') = (body.head? == some '^') := by
        cases body <;> rfl
      have hbody : (if (body.head? == some '^') = true then (body ++ ')' :: behind).drop 1 else body ++ ')' :: behind) =
          (if (body.head? == some '^') = true then body.drop 1 else body) ++ ')' :: behind := by
        cases body with
        | nil => rfl
        | cons x body => split_ifs <;> rfl
      rw [hnegated, hbody]
      generalize (body.head? == some '^') = negated
      generalize (if negated = true then body.drop 1 else body) = body'
      cases hdrop : body'.dropWhile (· != ':') with
      | nil =>
        have hall := List.dropWhile_eq_nil_iff.1 hdrop
        have htake : ')' ∈ (body' ++ ')' :: behind).takeWhile (· != ':') := by
          rw [List.takeWhile_append_of_pos hall]
          simp
        rw [CharSet.ofName?_paren htake]
        split <;> simp
      | cons x tail =>
        rw [dropWhile_append_of_cons _ hdrop, takeWhile_append_of_cons _ hdrop]
        cases tail with
        | nil => simp
        | cons y rest =>
          by_cases hend : x = ':' ∧ y = ']'
          · obtain ⟨rfl, rfl⟩ := hend
            simp only [List.cons_append, Option.map_map]
            rfl
          · have hneither : ∀ inner rest', x :: y :: inner ≠ ':' :: ']' :: rest' := by simpa using hend
            simp only [List.cons_append, hneither, imp_self, implies_true, Option.map_none]
    · have hother : ∀ body, readNamed mode ('[' :: c :: body) = none := by
        intro body
        simp [readNamed, hc]
      rw [List.cons_append, hother, hother, Option.map_none]

theorem readAtom_append {atom : Atom} (h : readAtom mode text = some (atom, rest)) :
    readAtom mode (text ++ ')' :: behind) = some (atom, rest ++ ')' :: behind) := by
  cases text with
  | nil => cases h
  | cons c inner =>
    by_cases hc : c = '\\'
    · subst hc
      exact Atom.readEscape_append _ h
    · simp only [readAtom, List.cons_append] at h ⊢
      cases h
      rfl

theorem readItem_append (h : readItem mode text = some (s, rest)) :
    readItem mode (text ++ ')' :: behind) = some (s, rest ++ ')' :: behind) := by
  rw [readItem] at h ⊢
  obtain ⟨⟨first, inner⟩, hfirst, h⟩ := Option.bind_eq_some_iff.1 h
  rw [readAtom_append _ hfirst, Option.bind_eq_bind, Option.bind_some]
  cases hskip : mode.skip inner with
  | nil => simp [hskip] at h
  | cons c after =>
    have hskip' := Mode.skip_append (')' :: behind) hskip
    by_cases hc : c = '-'
    · subst hc
      simp only [hskip, hskip'] at h ⊢
      cases hafter : mode.skip after with
      | nil => simp [hafter] at h
      | cons d after' =>
        simp only [hafter, Mode.skip_append _ hafter] at h ⊢
        split_ifs at h ⊢
        · obtain ⟨s, hset, hresult⟩ := Option.map_eq_some_iff.1 h
          cases hresult
          simp [hset]
        · split at h
          · next low high inner' hatom =>
            have hatom' := readAtom_append behind hatom
            rw [List.cons_append] at hatom'
            simp only [hatom']
            split_ifs at h ⊢
            cases h
            rfl
          · cases h
    · simp only [hskip, hskip', List.cons.injEq, hc, false_and, false_imp_iff, implies_true] at h ⊢
      obtain ⟨s, hset, hresult⟩ := Option.map_eq_some_iff.1 h
      cases hresult
      simp [hset]

theorem readHyphens_append {m n : Nat} {items items' : CharSet} (hn : text.length ≤ n)
    (hm : (text ++ behind).length ≤ m) (h : readHyphens mode n items text = (items', c :: rest)) :
    readHyphens mode m items (text ++ behind) = (items', c :: (rest ++ behind)) := by
  induction n generalizing m items text with
  | zero =>
    rw [List.length_eq_zero_iff.1 (Nat.le_zero.1 hn)] at h
    simp [readHyphens] at h
  | succ n ih =>
    rw [readHyphens] at h
    cases hskip : mode.skip text with
    | nil => simp [hskip] at h
    | cons x inner =>
      have hskip' := Mode.skip_append behind hskip
      have hle := mode.skip_length_le text
      have hle' := mode.skip_length_le (text ++ behind)
      rw [hskip, List.length_cons] at hle
      rw [hskip', List.length_cons] at hle'
      obtain ⟨m, rfl⟩ := Nat.exists_eq_succ_of_ne_zero (by omega : m ≠ 0)
      rw [readHyphens]
      by_cases hx : x = '-'
      · subst hx
        simp only [hskip, hskip'] at h ⊢
        exact ih (by omega) (by omega) h
      · simp only [hskip, hskip', List.cons.injEq, hx, false_and, false_imp_iff, implies_true] at h ⊢
        cases h
        rfl

theorem readFront_append {negated : Bool} {items : CharSet} (h : readFront mode text = (negated, items, rest))
    (hrest : rest ≠ []) : readFront mode (text ++ ')' :: behind) = (negated, items, rest ++ ')' :: behind) := by
  simp only [readFront] at h ⊢
  cases hskip : mode.skip text with
  | nil =>
    simp only [hskip, List.head?_nil, Option.none_beq_some, Bool.false_eq_true, if_false, Mode.skip_nil] at h
    cases h
    exact absurd rfl hrest
  | cons c inner =>
    have hfront : (if ((c :: inner).head? == some '^') = true then (c :: (inner ++ ')' :: behind)).drop 1
          else c :: (inner ++ ')' :: behind)) =
        (if ((c :: inner).head? == some '^') = true then (c :: inner).drop 1 else c :: inner) ++ ')' :: behind := by
      split_ifs <;> rfl
    have hhead : ((c :: (inner ++ ')' :: behind)).head? == some '^') = ((c :: inner).head? == some '^') := rfl
    rw [hskip] at h
    rw [Mode.skip_append _ hskip, hhead, hfront]
    generalize (if ((c :: inner).head? == some '^') = true then (c :: inner).drop 1 else c :: inner) = front at h ⊢
    generalize ((c :: inner).head? == some '^') = negated' at h ⊢
    cases hskip' : mode.skip front with
    | nil =>
      simp only [hskip'] at h
      cases h
      exact absurd rfl hrest
    | cons x tail =>
      rw [hskip'] at h
      rw [Mode.skip_append _ hskip', ← List.cons_append]
      rcases hhyphens : readHyphens mode (x :: tail).length .empty (x :: tail) with ⟨items', _ | ⟨y, tail'⟩⟩
      · simp only [hhyphens] at h
        cases h
        exact absurd rfl hrest
      · have hhyphens' := readHyphens_append (')' :: behind) (Nat.le_refl _) (Nat.le_refl _) hhyphens
        by_cases hfirst : items' = .empty ∧ y = ']'
        · obtain ⟨rfl, rfl⟩ := hfirst
          simp only [hhyphens, hhyphens'] at h ⊢
          cases h
          rfl
        · have hother : ∀ front rest', (items', y :: front) = (.empty, ']' :: rest') → False := by
            rintro front rest' heq
            cases heq
            exact hfirst ⟨rfl, rfl⟩
          simp only [hhyphens, hhyphens'] at h ⊢
          split at h
          · next heq => exact absurd heq (hother _ _)
          · next heq =>
            cases heq
            cases h
            split
            · next heq => exact absurd heq (hother _ _)
            · next heq =>
              cases heq
              rfl

theorem readItems_nil (mode : Mode) (n : Nat) (pending : Option (SetOp × CharSet)) (items : CharSet) :
    readItems mode n pending items [] = none := by
  cases n with
  | zero => rfl
  | succ n => simp [readItems, Mode.skip_nil]

theorem readItems_append {m n : Nat} {pending : Option (SetOp × CharSet)} {items : CharSet} (hle : n ≤ m)
    (h : readItems mode n pending items text = some (s, rest)) :
    readItems mode m pending items (text ++ ')' :: behind) = some (s, rest ++ ')' :: behind) := by
  induction n generalizing m pending items text s rest with
  | zero => cases h
  | succ n ih =>
    obtain ⟨m, rfl⟩ := Nat.exists_eq_succ_of_ne_zero (by omega : m ≠ 0)
    have hle : n ≤ m := by omega
    rw [readItems] at h
    split at h
    · cases h
    · next inner hskip =>
      cases h
      simp only [readItems, Mode.skip_append _ hskip]
    · next inner hskip =>
      simp only [readItems, Mode.skip_append _ hskip, List.cons_append]
      exact ih hle h
    · next inner hskip =>
      simp only [readItems, Mode.skip_append _ hskip, List.cons_append]
      exact ih hle h
    · next inner hskip =>
      simp only [readItems, Mode.skip_append _ hskip, List.cons_append]
      exact ih hle h
    · next inner hskip =>
      simp only [readItems, Mode.skip_append _ hskip, readNamed_paren]
      split at h
      · next s' inner' hnamed =>
        simp only [hnamed, Option.map_some]
        exact ih hle h
      · next hnamed =>
        rcases hfront : readFront mode inner with ⟨negated, front, inner'⟩
        simp only [hfront] at h
        cases hnested : readItems mode n none front inner' with
        | none => simp [hnested] at h
        | some result =>
          obtain ⟨s', tail⟩ := result
          have hinner' : inner' ≠ [] := by
            rintro rfl
            simp [readItems_nil] at hnested
          simp only [hnested] at h
          simp only [hnamed, Option.map_none, readFront_append behind hfront hinner', ih hle hnested]
          exact ih hle h
    · next h₁ h₂ h₃ h₄ h₅ h₆ =>
      cases hskip : mode.skip text with
      | nil => exact absurd hskip h₁
      | cons c inner =>
        rw [hskip] at h h₂ h₃ h₄ h₅ h₆
        have h₃' : ∀ rest, c :: (inner ++ ')' :: behind) = '&' :: '&' :: rest → False :=
          ne_append_paren behind ['&', '&'] (by decide) h₃
        have h₄' : ∀ rest, c :: (inner ++ ')' :: behind) = '-' :: '-' :: rest → False :=
          ne_append_paren behind ['-', '-'] (by decide) h₄
        have h₅' : ∀ rest, c :: (inner ++ ')' :: behind) = '~' :: '~' :: rest → False :=
          ne_append_paren behind ['~', '~'] (by decide) h₅
        cases hitem : readItem mode (c :: inner) with
        | none => simp [hitem] at h
        | some result =>
          obtain ⟨s', tail⟩ := result
          simp only [hitem] at h
          have hitem' := readItem_append behind hitem
          rw [List.cons_append] at hitem'
          have hclose : c ≠ ']' := fun hc => h₂ inner (by rw [hc])
          have hopen : c ≠ '[' := fun hc => h₆ inner (by rw [hc])
          simp only [readItems, Mode.skip_append _ hskip, List.cons.injEq, hclose, hopen, hitem', false_and, false_imp_iff,
            implies_true]
          exact ih hle h

theorem read_append (h : read mode text = some (s, rest)) :
    read mode (text ++ ')' :: behind) = some (s, rest ++ ')' :: behind) := by
  rcases hfront : readFront mode text with ⟨negated, front, inner⟩
  simp only [read, hfront, Option.bind_eq_bind, Option.bind_eq_some_iff] at h
  obtain ⟨⟨s', rest'⟩, hitems, hresult⟩ := h
  cases hresult
  have hinner : inner ≠ [] := by
    rintro rfl
    simp [readItems_nil] at hitems
  have hle : text.length + 1 ≤ (text ++ ')' :: behind).length + 1 := by simp
  simp only [read, readFront_append behind hfront hinner, readItems_append behind hle hitems]
  rfl

end Bracket

/-! ## Repetitions, switches and names -/

namespace Reader

theorem readGreed_paren (text : Text) :
    readGreed (text ++ ')' :: behind) = ((readGreed text).1, (readGreed text).2 ++ ')' :: behind) := by
  cases text with
  | nil => rfl
  | cons c inner =>
    by_cases hc : c = '?'
    · subst hc
      rfl
    · simp [readGreed, hc]

theorem readCount_paren (text : Text) :
    readCount (text ++ ')' :: behind) = ((readCount text).1, (readCount text).2 ++ ')' :: behind) := by
  have hblank : Text.isBlank ')' = false := by decide
  have hdigit : Char.isDigit ')' = false := by decide
  simp only [readCount, dropWhile_paren _ hblank, dropWhile_paren _ hdigit, takeWhile_paren _ hdigit]

theorem readBounds_append {bounds : Nat × Option Nat} (h : readBounds mode text = some (bounds, rest)) :
    readBounds mode (text ++ ')' :: behind) = some (bounds, rest ++ ')' :: behind) := by
  simp only [readBounds] at h ⊢
  cases hskip : mode.skip text with
  | nil => simp [hskip, readCount] at h
  | cons c inner =>
    rw [hskip] at h
    rw [Mode.skip_append _ hskip, ← List.cons_append, readCount_paren]
    rcases hcount : readCount (c :: inner) with ⟨_ | least, _ | ⟨x, tail⟩⟩
    all_goals simp only [hcount] at h ⊢
    · cases h
    · cases h
    · cases h
    · by_cases hbrace : x = '\x7D'
      · subst hbrace
        cases h
        rfl
      by_cases hcomma : x = ','
      · subst hcomma
        simp only [List.cons_append] at h ⊢
        cases hskip' : mode.skip tail with
        | nil => simp [hskip', readCount] at h
        | cons y inner' =>
          have hskip'' := Mode.skip_append (')' :: behind) hskip'
          by_cases hy : y = '\x7D'
          · subst hy
            simp only [hskip', hskip''] at h ⊢
            cases h
            rfl
          · simp only [hskip', hskip'', List.cons.injEq, hy, false_and, false_imp_iff, implies_true] at h ⊢
            rw [← List.cons_append, readCount_paren]
            split at h
            · next most rest' hcount' =>
              simp only [hcount', List.cons_append]
              split_ifs at h ⊢
              cases h
              rfl
            · cases h
      · simp [hbrace, hcomma] at h

theorem readSwitches_append {on : Bool} {seen seen' : List Char} {last : Char} {mode' : Mode}
    (h : readSwitches mode on seen text = some (mode', seen', last, rest)) :
    readSwitches mode on seen (text ++ behind) = some (mode', seen', last, rest ++ behind) := by
  induction text generalizing mode on seen with
  | nil => cases h
  | cons c text ih =>
    rw [List.cons_append]
    simp only [readSwitches] at h ⊢
    split_ifs at h ⊢
    · cases h
      rfl
    · exact ih h
    · cases hset : mode.set? c on with
      | none => simp [hset] at h
      | some mode' =>
        simp only [hset] at h ⊢
        exact ih h

theorem readName_append {name : Text} (h : readName text = some (name, rest)) :
    readName (text ++ behind) = some (name, rest ++ behind) := by
  simp only [readName] at h ⊢
  cases hdrop : text.dropWhile (· != '>') with
  | nil => simp [hdrop] at h
  | cons c inner =>
    rw [hdrop] at h
    rw [dropWhile_append_of_cons _ hdrop, takeWhile_append_of_cons _ hdrop]
    split at h
    · next first others heq hname =>
      cases heq
      simp only [hname]
      split_ifs at h ⊢
      cases h
      rw [hname]
    · cases h

end Reader

end Linewise.Regex
