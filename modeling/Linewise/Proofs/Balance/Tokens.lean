/-
How the tokens of a line are told apart.

A token is found in its line, by a pattern with the opening and the closing pattern as its branches, and then cut out
and matched on its own. `Delimiter.StandsAlone` says when that makes no difference: the pattern that matches the token
in its line matches the whole token alone, and a closing token is not an opening one alone.

Main statement: `count_inPlace_iff`. For any two patterns of a valid delimiter, a token is counted by the branch that
found it if and only if it stands alone; where all tokens of a line do, the count of the line is that of the branches,
and none is skipped. Patterns without anchors have no other tokens. With anchors a token may be lost: `a\B` finds the
`a` of `ab`, and does not match `a` (`lost_token`).
-/
import Linewise.Balance.Delimiter
import Linewise.Proofs.Regex.Meaning
import Linewise.Proofs.Regex.Paste

namespace Linewise.Delimiter

open Regex

variable {d : Delimiter} {opening closing : Text} {first second : Expr} {hit : Hit} {text : Text}

/-- the patterns of the delimiter are those of an opening and a closing expression -/
structure Reading (d : Delimiter) (first second : Expr) : Prop where
  openingToken : d.openingToken.expr = some (.seq (.anchor .textStart) (.seq first (.anchor .textEnd)))
  closingToken : d.closingToken.expr = some (.seq (.anchor .textStart) (.seq second (.anchor .textEnd)))
  scanner : d.scanner.expr = some (.alt first second)

/-- count a token by the branch that found it -/
def countInPlace (first : Expr) (hit : Hit) (pair : Pair) : Pair :=
  if first.matchAt? hit.start = some hit then pair.addOpening else pair.addClosing

/-- the token, cut out of its line, is matched by the branch that found it, and by no earlier one -/
def StandsAlone (first second : Expr) (hit : Hit) : Prop :=
  if first.matchAt? hit.start = some hit then first.matchesWhole hit.text = true
  else first.matchesWhole hit.text = false ∧ second.matchesWhole hit.text = true

instance (first second : Expr) (hit : Hit) : Decidable (StandsAlone first second hit) :=
  inferInstanceAs (Decidable (if _ = _ then _ else _))

/-- the tokens of a line -/
def tokens (first second : Expr) (text : Text) : List Hit :=
  ((Expr.alt first second).hits text).filter fun hit => !hit.isEmpty

/-- a pattern of a whole token that is valid has the expression of the token between anchors -/
theorem wholeToken_expr (hparse : parse? opening false = some first) (hvalid : (wholeToken opening).isValid = true) :
    Stands opening first ∧
      (wholeToken opening).expr = some (.seq (.anchor .textStart) (.seq first (.anchor .textEnd))) := by
  rw [wholeToken] at hvalid ⊢
  split_ifs at hvalid ⊢
  · cases hvalid
  · obtain ⟨out, hout⟩ := Option.isSome_iff_exists.1 hvalid
    have hout' : parse? (['^', '(', '?', ':'] ++ opening ++ [')', '$']) false = some out := hout
    obtain ⟨hstands, hsame⟩ := parse?_anchored hparse hout'
    rw [hout, hsame]
    exact ⟨hstands, rfl⟩

theorem Reading.of_valid (hopening : parse? opening false = some first) (hclosing : parse? closing false = some second)
    (hvalid : (ofPatterns opening closing none).isValid = true) :
    Reading (ofPatterns opening closing none) first second := by
  simp only [isValid, Bool.and_eq_true] at hvalid
  obtain ⟨⟨hvalidOpening, hvalidClosing⟩, hvalidScanner⟩ := hvalid
  obtain ⟨hstands, hopeningToken⟩ := wholeToken_expr hopening hvalidOpening
  obtain ⟨hstands', hclosingToken⟩ := wholeToken_expr hclosing hvalidClosing
  refine ⟨hopeningToken, hclosingToken, ?_⟩
  obtain ⟨out, hout⟩ := Option.isSome_iff_exists.1 hvalidScanner
  rw [hout]
  simp only [ofPatterns, Option.getD_none, Pattern.compile, eitherToken] at hout
  split_ifs at hout with hempty hnil
  · exact absurd rfl hnil
  · rw [parse?_branches hstands hstands' hout]

namespace Reading

variable (h : Reading d first second)
include h

theorem isValid : d.isValid = true := by
  simp [Delimiter.isValid, Pattern.isValid, h.openingToken, h.closingToken, h.scanner]

theorem countToken (token : Text) (pair : Pair) : d.countToken token pair =
    if first.matchesWhole token = true then pair.addOpening
    else if second.matchesWhole token = true then pair.addClosing
    else pair := by
  simp [Delimiter.countToken, Pattern.accepts, h.openingToken, h.closingToken, Expr.accepts_anchored]

theorem scanner_hits (text : Text) : d.scanner.hits text = tokens first second text := by
  simp [Pattern.hits, h.scanner, tokens]

/-- **A token is counted by the branch that found it if and only if it stands alone.** -/
theorem countToken_eq_iff : d.countToken hit.text = countInPlace first hit ↔ StandsAlone first second hit := by
  constructor
  · intro hsame
    -- an opening token, a closing one and none change the empty pair in three ways
    have hempty := congrFun hsame {}
    rw [h.countToken, countInPlace] at hempty
    rw [StandsAlone]
    split_ifs at hempty ⊢ with hplace hopening hclosing hopening hclosing
    · exact hopening
    · cases hempty
    · cases hempty
    · cases hempty
    · exact ⟨by simpa using hopening, hclosing⟩
    · cases hempty
  · intro halone
    funext pair
    rw [h.countToken, countInPlace]
    rw [StandsAlone] at halone
    by_cases hplace : first.matchAt? hit.start = some hit
    · rw [if_pos hplace] at halone ⊢
      rw [if_pos halone]
    · rw [if_neg hplace] at halone ⊢
      rw [if_neg (by simp [halone.1]), if_pos halone.2]

/-- where all tokens stand alone, the count is that of the branches -/
theorem count_eq (hall : ∀ hit ∈ tokens first second text, StandsAlone first second hit) (commented : Nat → Bool) :
    d.count text commented = (tokens first second text).foldl
      (fun t hit => t.modify (commented hit.start.offset) (countInPlace first hit)) {} := by
  rw [count, if_pos h.isValid, h.scanner_hits]
  refine List.foldl_ext _ _ _ fun t hit hmem => ?_
  rw [h.countToken_eq_iff.2 (hall hit hmem)]

end Reading

/-- tokens of patterns without anchors stand alone -/
theorem standsAlone_of_anchorFree (hfirst : first.anchorFree = true) (hsecond : second.anchorFree = true)
    (hmem : hit ∈ tokens first second text) : StandsAlone first second hit := by
  have hmatch := (Expr.hits_hit (List.mem_of_mem_filter hmem)).2
  have hrest := (Hit.rest_eq_text_append (Expr.matchAt?_some hmatch).2).1
  rw [Expr.matchAt?_alt] at hmatch
  have halone : ∀ e : Expr, e.anchorFree = true → e.matchAt? hit.start = some hit → e.matchesWhole hit.text = true :=
    fun e hfree hfound => (Expr.matchesWhole_iff_reaches hfree hrest).2 ⟨hit.stop, .of_matchAt? hfound, rfl⟩
  rw [StandsAlone]
  split_ifs with hplace
  · exact halone first hfirst hplace
  · cases hnone : first.matchAt? hit.start with
    | some other =>
      rw [hnone, Option.some_or] at hmatch
      exact absurd (hnone.trans hmatch) hplace
    | none =>
      rw [hnone, Option.none_or] at hmatch
      refine ⟨?_, halone second hsecond hmatch⟩
      cases hwhole : first.matchesWhole hit.text with
      | false => rfl
      | true =>
        obtain ⟨stop, hreaches, -⟩ := (Expr.matchesWhole_iff_reaches hfirst hrest).1 hwhole
        have hsome := Expr.matchAt?_isSome_iff.2 ⟨stop, hreaches⟩
        simp [hnone] at hsome

/-- **Tokens are counted by the branches that found them exactly where they stand alone.** -/
theorem count_inPlace_iff (hopening : parse? opening false = some first) (hclosing : parse? closing false = some second)
    (hvalid : (ofPatterns opening closing none).isValid = true) (text : Text) (commented : Nat → Bool) :
    (ofPatterns opening closing none).scanner.hits text = tokens first second text ∧
    (∀ hit ∈ tokens first second text, (ofPatterns opening closing none).countToken hit.text = countInPlace first hit ↔
      StandsAlone first second hit) ∧
    ((∀ hit ∈ tokens first second text, StandsAlone first second hit) →
      (ofPatterns opening closing none).count text commented = (tokens first second text).foldl
        (fun t hit => t.modify (commented hit.start.offset) (countInPlace first hit)) {}) ∧
    (first.anchorFree = true → second.anchorFree = true →
      ∀ hit ∈ tokens first second text, StandsAlone first second hit) := by
  have hreading := Reading.of_valid hopening hclosing hvalid
  refine ⟨hreading.scanner_hits text, fun hit _ => hreading.countToken_eq_iff, ?_, ?_⟩
  · intro hall
    exact hreading.count_eq hall commented
  · intro hfirst hsecond hit hmem
    exact standsAlone_of_anchorFree hfirst hsecond hmem

/-- `\bdo\b` -/
def doWord : Expr := .join [.anchor .wordEdge, .char 'd', .char 'o', .anchor .wordEdge]

/-- `\bod\b` -/
def odWord : Expr := .join [.anchor .wordEdge, .char 'o', .char 'd', .anchor .wordEdge]

/-- words between word boundaries stand alone: one block of `do nod do od` stays open -/
theorem count_inPlace_iff_words :
    (∀ hit ∈ tokens doWord odWord "do nod do od".toList, StandsAlone doWord odWord hit) ∧
    (ofPatterns "\\bdo\\b".toList "\\bod\\b".toList none).count "do nod do od".toList (fun _ => false) =
      (tokens doWord odWord "do nod do od".toList).foldl
        (fun t hit => t.modify false (countInPlace doWord hit)) {} ∧
    (tokens doWord odWord "do nod do od".toList).length = 3 := by
  have halone : ∀ hit ∈ tokens doWord odWord "do nod do od".toList, StandsAlone doWord odWord hit := by decide
  have hopening : parse? "\\bdo\\b".toList false = some doWord := by decide
  have hclosing : parse? "\\bod\\b".toList false = some odWord := by decide
  have hcount := (count_inPlace_iff hopening hclosing (by decide) _ fun _ => false).2.2.1 halone
  exact ⟨halone, hcount, by decide⟩

/-- **A token may be lost**: `a\B` finds the `a` of `ab` and does not match it alone, so it is not counted. -/
theorem lost_token : ¬∀ (opening closing : Text) (first second : Expr), parse? opening false = some first →
    parse? closing false = some second → (ofPatterns opening closing none).isValid = true →
    ∀ (text : Text) (commented : Nat → Bool), (ofPatterns opening closing none).count text commented =
      (tokens first second text).foldl
        (fun t hit => t.modify (commented hit.start.offset) (countInPlace first hit)) {} := by
  intro hall
  have hsame := hall "a\\B".toList "z".toList (.join [.char 'a', .anchor .noWordEdge]) (.char 'z') (by decide)
    (by decide) (by decide) "ab".toList (fun _ => false)
  exact absurd hsame (by decide)

end Linewise.Delimiter
