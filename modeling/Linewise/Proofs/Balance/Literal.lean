/-
Delimiters of two plain tokens.

`Delimiter.plainTokens` finds the tokens of a line without patterns: from left to right it takes the opening token where
the text goes on with it, else the closing one where the text goes on with that, else it moves one character on.

Main statement: `literal_count`, the count of a line is that of the plain scan. The escaped tokens are read back
character by character (`run_escape`), so the patterns are those of two literals; a literal matches at the places where
the text goes on with it and nowhere else (`reaches_literal`); and the next match of either is the next token of the
plain scan (`hitsAfter_literals`). Literals have no anchors, so each token stands alone.
-/
import Mathlib.Tactic.FinCases
import Linewise.Proofs.Balance.Tokens

namespace Linewise

open Regex

namespace Regex

/-! ## Reading an escaped text -/

namespace Reader

/-- append the characters of a text to the current branch -/
def pushText (r : Reader) (text : Text) : Reader :=
  { r with level := { r.level with pieces := (text.map fun c => ⟨.char c, true⟩).reverse ++ r.level.pieces } }

theorem readEscape_meta {c : Char} (hc : isMeta c = true) (rest : Text) :
    Atom.readEscape {} (c :: rest) = some (.char c, rest) := by
  have hmem : c ∈ metaChars := List.contains_iff_mem.1 hc
  fin_cases hmem <;> rfl

theorem step?_plain (r : Reader) {c : Char} (hc : isMeta c = false) (rest : Text) :
    r.step? c rest = some (r.push (r.mode.literal c) true, rest) := by
  unfold step?
  split
  case h_13 => rfl
  all_goals exact absurd hc (by decide)

/-- a character with a meaning of its own stands for itself behind a backslash, any other without one -/
theorem run_escape_char {r : Reader} (hmode : r.mode = {}) (c : Char) (rest : Text) (n : Nat) :
    run (n + 1) r (escape [c] ++ rest) = run n (r.push (.char c) true) rest := by
  cases hc : isMeta c with
  | true =>
    have htext : escape [c] ++ rest = '\\' :: c :: rest := by simp [escape, hc]
    have hskip : r.mode.skip ('\\' :: c :: rest) = '\\' :: c :: rest := by rw [hmode]; rfl
    have hstep : r.step? '\\' (c :: rest) = some (r.push (.char c) true, rest) := by
      simp only [step?, hmode, readEscape_meta hc]
      rfl
    simp only [htext, run, hskip, hstep]
  | false =>
    have htext : escape [c] ++ rest = c :: rest := by simp [escape, hc]
    have hskip : r.mode.skip (c :: rest) = c :: rest := by rw [hmode]; rfl
    have hstep : r.step? c rest = some (r.push (.char c) true, rest) := by
      rw [step?_plain r hc, hmode]
      rfl
    simp only [htext, run, hskip, hstep]

theorem run_escape {r : Reader} (hmode : r.mode = {}) (text rest : Text) (n : Nat) :
    run (text.length + n) r (escape text ++ rest) = run n (r.pushText text) rest := by
  induction text generalizing r with
  | nil =>
    rw [List.length_nil, Nat.zero_add]
    rfl
  | cons c text ih =>
    have hsplit : escape (c :: text) ++ rest = escape [c] ++ (escape text ++ rest) := by simp [escape]
    have hlength : (c :: text).length + n = text.length + n + 1 := by simp only [List.length_cons]; omega
    have hpush : (r.push (.char c) true).pushText text = r.pushText (c :: text) := by simp [pushText, push]
    have hmode' : (r.push (.char c) true).mode = {} := hmode
    rw [hsplit, hlength, run_escape_char hmode, ih hmode', hpush]

theorem run_mono {m n : Nat} {r : Reader} {text : Text} {e : Expr} (hle : n ≤ m) (h : run n r text = some e) :
    run m r text = some e := by
  induction n generalizing m r text with
  | zero => cases h
  | succ n ih =>
    obtain ⟨m, rfl⟩ := Nat.exists_eq_succ_of_ne_zero (by omega : m ≠ 0)
    rw [run] at h ⊢
    split at h
    · exact h
    · split at h
      · cases h
      · exact ih (by omega) h

/-- a group around an escaped text is a piece with its characters -/
theorem run_group {r : Reader} (hmode : r.mode = {}) (text rest : Text) (n : Nat) :
    run (text.length + (n + 1) + 1) r ('(' :: '?' :: ':' :: (escape text ++ ')' :: rest)) =
      run n (r.push (.literal text) true) rest := by
  obtain ⟨mode, names, level, outer⟩ := r
  cases hmode
  have hopen : ∀ k, run (k + 1) ⟨{}, names, level, outer⟩ ('(' :: '?' :: ':' :: (escape text ++ ')' :: rest)) =
      run k ⟨{}, names, { outerMode := {} }, level :: outer⟩ (escape text ++ ')' :: rest) := fun _ => rfl
  have hclose : ∀ inner : Level, run (n + 1) ⟨{}, names, inner, level :: outer⟩ (')' :: rest) =
      run n (push ⟨inner.outerMode, names, level, outer⟩ inner.expr true) rest := fun _ => rfl
  rw [hopen, run_escape rfl, pushText, hclose]
  simp [Level.expr, Level.current, Expr.literal, Expr.branch, Function.comp_def]

end Reader

theorem escape_length_le (text : Text) : text.length ≤ (escape text).length := by
  induction text with
  | nil => exact Nat.le_refl _
  | cons c text ih =>
    have hsplit : escape (c :: text) = escape [c] ++ escape text := by simp [escape]
    have hone : 1 ≤ (escape [c]).length := by
      cases hc : isMeta c <;> simp [escape, hc]
    rw [hsplit, List.length_append, List.length_cons]
    omega

theorem isEmpty_escape {text : Text} (h : text ≠ []) : (escape text).isEmpty = false := by
  have hpos := List.length_pos_iff.2 h
  have hle := escape_length_le text
  exact List.isEmpty_eq_false_iff.2 (List.length_pos_iff.1 (by omega))

/-- between anchors, an escaped text is read as its characters -/
theorem parse?_anchored_escape (text : Text) : parse? (['^', '(', '?', ':'] ++ escape text ++ [')', '$']) false =
    some (.seq (.anchor .textStart) (.seq (.literal text) (.anchor .textEnd))) := by
  have hrun : Reader.run (text.length + (2 + 1) + 1 + 1) .start
      ('^' :: '(' :: '?' :: ':' :: (escape text ++ ')' :: ['$'])) =
      some (.seq (.anchor .textStart) (.seq (.literal text) (.anchor .textEnd))) :=
    Reader.run_group (r := Reader.start.push (.anchor .textStart) true) rfl text ['$'] 2
  have hlength := escape_length_le text
  refine Reader.run_mono ?_ hrun
  simp only [List.length_append, List.length_cons, List.length_nil]
  omega

/-- as branches, two escaped texts are read as their characters -/
theorem parse?_branches_escape (first second : Text) :
    parse? (['(', '?', ':'] ++ escape first ++ [')', '|', '(', '?', ':'] ++ escape second ++ [')']) false =
      some (.alt (.literal first) (.literal second)) := by
  have hsource : ['(', '?', ':'] ++ escape first ++ [')', '|', '(', '?', ':'] ++ escape second ++ [')'] =
      '(' :: '?' :: ':' :: (escape first ++ ')' :: '|' :: '(' :: '?' :: ':' :: (escape second ++ ')' :: [])) := by
    simp
  have hrun : Reader.run (first.length + (second.length + (1 + 1) + 1 + 1 + 1) + 1) .start
      ('(' :: '?' :: ':' :: (escape first ++ ')' :: '|' :: '(' :: '?' :: ':' :: (escape second ++ ')' :: []))) =
      some (.alt (.literal first) (.literal second)) := by
    rw [Reader.run_group (r := .start) rfl]
    exact Reader.run_group (r := (Reader.start.push (.literal first) true).nextBranch) rfl second [] 1
  have hfirst := escape_length_le first
  have hsecond := escape_length_le second
  rw [hsource]
  refine Reader.run_mono ?_ hrun
  simp only [List.length_append, List.length_cons, List.length_nil]
  omega

/-! ## Where a literal matches -/

theorem Cursor.exists_place {c : Cursor} {text rest : Text} (h : c.rest = text ++ rest) :
    ∃ d ∈ c.places, d.rest = rest := by
  induction text generalizing c with
  | nil => exact ⟨c, c.mem_places_self, h⟩
  | cons x text ih =>
    obtain ⟨d, hd, hrest⟩ := ih (c := c.past x (text ++ rest)) rfl
    rw [places_of_cons h]
    exact ⟨d, List.mem_cons_of_mem _ hd, hrest⟩

namespace Expr

variable {c d : Cursor}

theorem reaches_join_cons (e : Expr) (es : List Expr) :
    (join (e :: es)).Reaches c d ↔ ∃ middle, e.Reaches c middle ∧ (join es).Reaches middle d := by
  cases es with
  | nil =>
    constructor
    · intro h
      exact ⟨d, h, rfl⟩
    · rintro ⟨middle, h, rfl⟩
      exact h
  | cons e' es => rfl

/-- a literal matches where the text goes on with it -/
theorem reaches_literal {text : Text} : (literal text).Reaches c d ↔ d ∈ c.places ∧ c.rest = text ++ d.rest := by
  induction text generalizing c with
  | nil =>
    constructor
    · rintro rfl
      exact ⟨d.mem_places_self, rfl⟩
    · rintro ⟨hd, hrest⟩
      have hoffset := Cursor.offset_add_width hd
      rw [hrest] at hoffset
      exact Cursor.eq_of_offset hd c.mem_places_self (by simpa using hoffset)
  | cons x text ih =>
    rw [literal, List.map_cons, reaches_join_cons]
    constructor
    · rintro ⟨middle, ⟨y, rest, hc, hy, rfl⟩, h⟩
      obtain ⟨hd, hrest⟩ := ih.1 h
      have hxy : x = y := by simpa [CharSet.mem_single] using hy
      refine ⟨?_, ?_⟩
      · rw [Cursor.places_of_cons hc]
        exact List.mem_cons_of_mem _ hd
      · rw [hc, hxy]
        exact congrArg (y :: ·) hrest
    · rintro ⟨hd, hrest⟩
      have hsame : (CharSet.single x).mem x = true := by simp [CharSet.mem_single]
      refine ⟨c.past x (text ++ d.rest), ⟨x, text ++ d.rest, hrest, hsame, rfl⟩, ih.2 ⟨?_, rfl⟩⟩
      rw [Cursor.places_of_cons hrest, List.mem_cons] at hd
      refine hd.resolve_left ?_
      rintro rfl
      have hlength := congrArg List.length hrest
      simp at hlength
      omega

theorem anchorFree_literal (text : Text) : (literal text).anchorFree = true := by
  induction text with
  | nil => rfl
  | cons x text ih =>
    cases text with
    | nil => rfl
    | cons y text => exact ih

theorem matchAt?_literal {text rest : Text} (h : c.rest = text ++ rest) : ∃ stop,
    (literal text).matchAt? c = some ⟨c, stop⟩ ∧ stop.rest = rest ∧ stop.offset = c.offset + Text.width text := by
  obtain ⟨d, hd, hdrest⟩ := Cursor.exists_place h
  have hreaches : (literal text).Reaches c d := reaches_literal.2 ⟨hd, by rw [h, hdrest]⟩
  obtain ⟨hit, hmatch⟩ := Option.isSome_iff_exists.1 (matchAt?_isSome_iff.2 ⟨d, hreaches⟩)
  obtain ⟨rfl, -⟩ := matchAt?_some hmatch
  obtain ⟨hstop, hrest⟩ := reaches_literal.1 (Reaches.of_matchAt? hmatch)
  have hsame : hit.stop.rest = rest := List.append_cancel_left (hrest.symm.trans h)
  refine ⟨hit.stop, hmatch, hsame, ?_⟩
  have hwidth := Cursor.offset_add_width hstop
  rw [h, hsame, Text.width_append] at hwidth
  omega

theorem matchAt?_literal_none {text : Text} (h : ¬text <+: c.rest) : (literal text).matchAt? c = none := by
  rw [← Option.not_isSome_iff_eq_none, matchAt?_isSome_iff]
  rintro ⟨d, hreaches⟩
  exact h ⟨d.rest, (reaches_literal.1 hreaches).2.symm⟩

/-! ## The next match -/

section

variable {e : Expr} {hit : Hit}

theorem find?_of_matchAt? (h : e.matchAt? c = some hit) : e.find? c = some hit := by
  rw [find?, searchFrom?_eq]
  cases hc : c.rest with
  | nil => simp [Cursor.places_of_nil hc, h]
  | cons x rest => simp [Cursor.places_of_cons hc, h]

theorem find?_past {x : Char} {rest : Text} (hc : c.rest = x :: rest) (h : e.matchAt? c = none) :
    e.find? c = e.find? (c.past x rest) := by
  rw [find?, find?, searchFrom?_eq, searchFrom?_eq, Cursor.places_of_cons hc]
  simp [h]

theorem find?_nil (hc : c.rest = []) (h : e.matchAt? c = none) : e.find? c = none := by
  rw [find?, searchFrom?_eq, Cursor.places_of_nil hc]
  simp [h]

variable (hproper : ∀ c hit, e.matchAt? c = some hit → c.offset < hit.stop.offset)
include hproper

/-- no match is passed over where none is empty -/
theorem findAfter?_eq (c : Cursor) : e.findAfter? c = e.find? c := by
  rw [findAfter?]
  cases hfind : e.find? c with
  | none => rfl
  | some hit =>
    obtain ⟨hstart, hmatch, -⟩ := find?_some hfind
    have hlt := hproper hit.start hit hmatch
    have hle := Cursor.offset_le hstart
    exact if_neg (by omega)

theorem hitsAfter_cons (fuel : Nat) (h : e.matchAt? c = some hit) :
    e.hitsAfter (fuel + 1) c = hit :: e.hitsAfter fuel hit.stop := by
  rw [hitsAfter, findAfter?_eq hproper, find?_of_matchAt? h]

theorem hitsAfter_past {x : Char} {rest : Text} (fuel : Nat) (hc : c.rest = x :: rest) (h : e.matchAt? c = none) :
    e.hitsAfter (fuel + 1) c = e.hitsAfter (fuel + 1) (c.past x rest) := by
  rw [hitsAfter, hitsAfter, findAfter?_eq hproper, findAfter?_eq hproper, find?_past hc h]

theorem hitsAfter_nil (fuel : Nat) (hc : c.rest = []) (h : e.matchAt? c = none) : e.hitsAfter fuel c = [] := by
  cases fuel with
  | zero => rfl
  | succ fuel => rw [hitsAfter, findAfter?_eq hproper, find?_nil hc h]

theorem hits_eq_hitsAfter (text : Text) : e.hits text = e.hitsAfter (text.length + 1) (.start text) := by
  rw [hits, hitsAfter, findAfter?_eq hproper]

end

end Expr

end Regex

namespace Delimiter

variable {opening closing : Text}

theorem wholeToken_escape {token : Text} (htoken : token ≠ []) :
    (wholeToken (escape token)).expr = some (.seq (.anchor .textStart) (.seq (.literal token) (.anchor .textEnd))) := by
  have hescape : (escape token).isEmpty = false := isEmpty_escape htoken
  rw [wholeToken, hescape]
  exact parse?_anchored_escape token

theorem Reading.of_literal (hopening : opening ≠ []) (hclosing : closing ≠ []) :
    Reading (literal opening closing) (.literal opening) (.literal closing) where
  openingToken := wholeToken_escape hopening
  closingToken := wholeToken_escape hclosing
  scanner := by
    have hboth : ((escape opening).isEmpty || (escape closing).isEmpty) = false := by
      rw [isEmpty_escape hopening, isEmpty_escape hclosing]
      rfl
    simp only [literal, ofPatterns, Option.getD_none, eitherToken, hboth]
    exact parse?_branches_escape opening closing

/-- the tokens of a text from left to right, each with its offset and whether it is the opening one: where the text goes
on with the opening token, that is taken, else where it goes on with the closing one, that is; the search resumes behind
a token taken, and one character on where there is none -/
def plainTokens (opening closing : Text) (offset : Nat) : Text → List (Nat × Bool)
  | [] => []
  | c :: rest =>
    if opening.isPrefixOf (c :: rest) then
      (offset, true) :: plainTokens opening closing (offset + Text.width opening) (rest.drop (opening.length - 1))
    else if closing.isPrefixOf (c :: rest) then
      (offset, false) :: plainTokens opening closing (offset + Text.width closing) (rest.drop (closing.length - 1))
    else plainTokens opening closing (offset + c.utf8Size) rest
termination_by text => text.length
decreasing_by all_goals simp; try omega

/-- what a plain scan takes for a token: its offset, and whether it is the opening one -/
def plainToken (first : Expr) (hit : Hit) : Nat × Bool :=
  (hit.start.offset, decide (first.matchAt? hit.start = some hit))

section

variable (hopening : opening ≠ []) (hclosing : closing ≠ [])
include hopening hclosing

/-- a match of either token is not empty -/
theorem literals_proper (c : Cursor) (hit : Hit)
    (h : (Expr.alt (.literal opening) (.literal closing)).matchAt? c = some hit) : c.offset < hit.stop.offset := by
  have hproper : ∀ token : Text, token ≠ [] → (Expr.literal token).Reaches c hit.stop → c.offset < hit.stop.offset := by
    intro token htoken hreaches
    obtain ⟨hstop, hrest⟩ := Expr.reaches_literal.1 hreaches
    refine Nat.lt_of_le_of_ne (Cursor.offset_le hstop) fun hsame => ?_
    rw [Cursor.eq_of_offset c.mem_places_self hstop hsame] at hrest
    exact htoken (List.append_left_eq_self.1 hrest.symm)
  rcases Expr.Reaches.of_matchAt? h with hreaches | hreaches
  · exact hproper opening hopening hreaches
  · exact hproper closing hclosing hreaches

omit hopening hclosing in
/-- a token with which the text goes on is matched, and the rest of the text is behind it -/
theorem matchAt?_token {token : Text} (htoken : token ≠ []) {c : Cursor} {x : Char} {rest : Text}
    (hc : c.rest = x :: rest) (h : token <+: x :: rest) : ∃ stop, (Expr.literal token).matchAt? c = some ⟨c, stop⟩ ∧
      stop.rest = rest.drop (token.length - 1) ∧ stop.offset = c.offset + Text.width token := by
  obtain ⟨tail, htail⟩ := h
  obtain ⟨stop, hmatch, hrest, hoffset⟩ := Expr.matchAt?_literal (hc.trans htail.symm)
  refine ⟨stop, hmatch, ?_, hoffset⟩
  cases token with
  | nil => exact absurd rfl htoken
  | cons y token =>
    cases htail
    simp [hrest]

/-- **The next match of either token is the next token of the plain scan.** -/
theorem hitsAfter_literals {c : Cursor} {fuel : Nat} (hfuel : c.rest.length ≤ fuel) :
    ((Expr.alt (.literal opening) (.literal closing)).hitsAfter fuel c).map (plainToken (.literal opening)) =
      plainTokens opening closing c.offset c.rest := by
  have hproper := literals_proper hopening hclosing
  induction hlength : c.rest.length using Nat.strongRecOn generalizing c fuel with
  | ind n ih =>
    subst hlength
    cases hc : c.rest with
    | nil =>
      have hnone : (Expr.alt (.literal opening) (.literal closing)).matchAt? c = none := by
        rw [Expr.matchAt?_alt, Expr.matchAt?_literal_none (by simpa [hc] using hopening),
          Expr.matchAt?_literal_none (by simpa [hc] using hclosing), Option.none_or]
      rw [Expr.hitsAfter_nil hproper fuel hc hnone, plainTokens, List.map_nil]
    | cons x rest =>
      rw [hc, List.length_cons] at hfuel ih
      obtain ⟨fuel, rfl⟩ := Nat.exists_eq_succ_of_ne_zero (by omega : fuel ≠ 0)
      -- a token is taken, and the scan resumes behind it
      have htaken : ∀ (token : Text) (stop : Cursor), stop.rest = rest.drop (token.length - 1) →
          stop.offset = c.offset + Text.width token →
          (Expr.alt (.literal opening) (.literal closing)).matchAt? c = some ⟨c, stop⟩ →
          ((Expr.alt (.literal opening) (.literal closing)).hitsAfter (fuel + 1) c).map (plainToken (.literal opening)) =
            plainToken (.literal opening) ⟨c, stop⟩ ::
              plainTokens opening closing (c.offset + Text.width token) (rest.drop (token.length - 1)) := by
        intro token stop hrest hoffset hmatch
        have hle : stop.rest.length ≤ rest.length := by simp [hrest]
        have hlater := ih stop.rest.length (by omega) (by omega : stop.rest.length ≤ fuel) rfl
        rw [Expr.hitsAfter_cons hproper fuel hmatch, List.map_cons, hlater, hrest, hoffset]
      rw [plainTokens]
      split_ifs with hfirst hsecond
      · obtain ⟨stop, hmatch, hrest, hoffset⟩ := matchAt?_token hopening hc (List.isPrefixOf_iff_prefix.1 hfirst)
        rw [htaken opening stop hrest hoffset (by rw [Expr.matchAt?_alt, hmatch, Option.some_or])]
        simp [plainToken, hmatch]
      · obtain ⟨stop, hmatch, hrest, hoffset⟩ := matchAt?_token hclosing hc (List.isPrefixOf_iff_prefix.1 hsecond)
        have hnone : (Expr.literal opening).matchAt? c = none :=
          Expr.matchAt?_literal_none (by rwa [hc, ← List.isPrefixOf_iff_prefix])
        rw [htaken closing stop hrest hoffset (by rw [Expr.matchAt?_alt, hnone, Option.none_or, hmatch])]
        simp [plainToken, hnone]
      · have hnone : (Expr.alt (.literal opening) (.literal closing)).matchAt? c = none := by
          rw [Expr.matchAt?_alt, Expr.matchAt?_literal_none (by rwa [hc, ← List.isPrefixOf_iff_prefix]),
            Expr.matchAt?_literal_none (by rwa [hc, ← List.isPrefixOf_iff_prefix]), Option.none_or]
        rw [Expr.hitsAfter_past hproper fuel hc hnone]
        have hle : (c.past x rest).rest.length ≤ fuel + 1 := Nat.le_of_succ_le hfuel
        exact ih rest.length (Nat.lt_succ_self _) hle rfl

end

/-- **Plain tokens are counted as by a plain scan.** -/
theorem literal_count (hopening : opening ≠ []) (hclosing : closing ≠ []) (text : Text) (commented : Nat → Bool) :
    (literal opening closing).count text commented = (plainTokens opening closing 0 text).foldl
      (fun t token => t.modify (commented token.1) (if token.2 then Pair.addOpening else Pair.addClosing)) {} := by
  have halone : ∀ hit ∈ tokens (.literal opening) (.literal closing) text,
      StandsAlone (.literal opening) (.literal closing) hit := fun hit hmem =>
    standsAlone_of_anchorFree (Expr.anchorFree_literal _) (Expr.anchorFree_literal _) hmem
  have hproper := literals_proper hopening hclosing
  have hall : tokens (.literal opening) (.literal closing) text =
      (Expr.alt (.literal opening) (.literal closing)).hits text := by
    refine List.filter_eq_self.2 fun hit hmem => ?_
    have hlt := hproper hit.start hit (Expr.hits_hit hmem).2
    simp [Hit.isEmpty, Nat.ne_of_lt hlt]
  have hplain : (tokens (.literal opening) (.literal closing) text).map (plainToken (.literal opening)) =
      plainTokens opening closing 0 text := by
    rw [hall, Expr.hits_eq_hitsAfter hproper]
    exact hitsAfter_literals hopening hclosing (Nat.le_succ _)
  have hcount : ∀ hit, countInPlace (.literal opening) hit =
      if (plainToken (.literal opening) hit).2 then Pair.addOpening else Pair.addClosing := by
    intro hit
    by_cases hfirst : (Expr.literal opening).matchAt? hit.start = some hit
    · funext pair
      simp [countInPlace, plainToken, hfirst]
    · funext pair
      simp [countInPlace, plainToken, hfirst]
  rw [(Reading.of_literal hopening hclosing).count_eq halone, ← hplain, List.foldl_map]
  simp only [hcount]
  rfl

/-- tokens with a meaning as patterns, one of which begins the other: `.*` and `.` in `..*é.` -/
theorem literal_count_prefix :
    plainTokens ".*".toList ".".toList 0 "..*é.".toList = [(0, false), (1, true), (5, false)] ∧
    (literal ".*".toList ".".toList).count "..*é.".toList (fun offset => offset == 0) =
      (plainTokens ".*".toList ".".toList 0 "..*é.".toList).foldl (fun t token =>
        t.modify (token.1 == 0) (if token.2 then Pair.addOpening else Pair.addClosing)) {} :=
  ⟨by simp [plainTokens, Char.utf8Size], literal_count (by decide) (by decide) _ _⟩

end Delimiter

end Linewise
