/-
A pattern inside a group of a larger pattern.

Reading takes the pattern apart into parts (`Part`): what the next part is depends on the switches and the text only
(`Part.read?`), what it does to the reader on the reader only (`Reader.take?`). So the parts of a pattern are the same
in a group as alone, and the group gets the expression that the pattern has on its own (`Reads.group`). Two things can
go wrong: a name given inside is given outside too, or the pattern ends in an open comment that swallows the closing
parenthesis. Then the larger pattern has no meaning, unless a line feed further on ends the comment; a pattern that has
a meaning with `)$` behind it does not end so (`Reads.whole`).
-/
import Linewise.Proofs.Regex.Behind

namespace Linewise.Regex

/-- what one step of reading takes -/
inductive Part where
  | piece (e : Expr)
  | repetition (least : Nat) (most : Option Nat) (greedy : Bool)
  | bar
  | directive (mode : Mode)
  | opening (mode : Mode) (name : Option Text)
  | closing

namespace Part

/-- a group with a name -/
def readNamed? (mode : Mode) (text : Text) : Option (Part × Text) :=
  (Reader.readName text).map fun (name, rest) => (opening mode (some name), rest)

/-- what an opening parenthesis begins -/
def readGroup? (mode : Mode) : Text → Option (Part × Text)
  | '?' :: '=' :: _ => none
  | '?' :: '!' :: _ => none
  | '?' :: '<' :: '=' :: _ => none
  | '?' :: '<' :: '!' :: _ => none
  | '?' :: 'P' :: '<' :: rest => readNamed? mode rest
  | '?' :: '<' :: rest => readNamed? mode rest
  | '?' :: rest =>
    match Reader.readSwitches mode true [] rest with
    | none => none
    | some (switched, seen, last, rest) =>
      if last = ':' then some (opening switched none, rest)
      else if seen.isEmpty then none
      else some (directive switched, rest)
  | rest => some (opening mode none, rest)

/-- the part that begins with `c` -/
def read? (mode : Mode) (c : Char) (rest : Text) : Option (Part × Text) :=
  match c with
  | '(' => readGroup? mode (mode.skip rest)
  | ')' => some (closing, rest)
  | '|' => some (bar, rest)
  | '[' => (Bracket.read mode rest).map fun (s, rest) => (piece (.set s), rest)
  | '?' => let (greedy, rest) := Reader.readGreed rest; some (repetition 0 (some 1) greedy, rest)
  | '*' => let (greedy, rest) := Reader.readGreed rest; some (repetition 0 none greedy, rest)
  | '+' => let (greedy, rest) := Reader.readGreed rest; some (repetition 1 none greedy, rest)
  | '\x7B' =>
    match Reader.readBounds mode rest with
    | none => none
    | some ((least, most), rest) =>
      let (greedy, rest) := Reader.readGreed (mode.skip rest)
      some (repetition least most greedy, rest)
  | '\\' => (Atom.readEscape mode rest).map fun (atom, rest) => (piece (atom.toExpr mode), rest)
  | '.' => some (piece mode.dot, rest)
  | '^' => some (piece mode.caret, rest)
  | '$' => some (piece mode.dollar, rest)
  | c => some (piece (mode.literal c), rest)

end Part

namespace Reader

/-- what a part does to the reader -/
def take? (r : Reader) : Part → Option Reader
  | .piece e => some (r.push e true)
  | .repetition least most greedy => r.repeat? least most greedy
  | .bar => some r.nextBranch
  | .directive mode => some ({ r with mode }.push .empty false)
  | .opening mode none => some (r.openGroup mode)
  | .opening mode (some name) =>
    if r.names.contains name then none else some ({ r with names := name :: r.names }.openGroup mode)
  | .closing => r.closeGroup?

theorem parenthesis?_eq (r : Reader) (text : Text) : r.parenthesis? text =
    (Part.readGroup? r.mode (r.mode.skip text)).bind fun (part, rest) => (r.take? part).map (·, rest) := by
  have hnamed : ∀ text, r.openNamed? text =
      (Part.readNamed? r.mode text).bind fun (part, rest) => (r.take? part).map (·, rest) := by
    intro text
    rw [openNamed?, Part.readNamed?]
    cases readName text with
    | none => rfl
    | some result =>
      obtain ⟨name, rest⟩ := result
      by_cases hused : name ∈ r.names
      · simp [take?, hused]
      · simp [take?, hused]
  rw [parenthesis?]
  generalize r.mode.skip text = inner
  split
  · rfl
  · rfl
  · rfl
  · rfl
  · exact hnamed _
  · simp only [Part.readGroup?]
    exact hnamed _
  · next inner' _ _ _ _ _ _ =>
    simp only [Part.readGroup?]
    cases readSwitches r.mode true [] inner' with
    | none => rfl
    | some result =>
      obtain ⟨mode, seen, last, rest⟩ := result
      dsimp only
      split_ifs <;> rfl
  · simp only [Part.readGroup?]
    rfl

/-- **A step reads a part and applies it.** -/
theorem step?_eq (r : Reader) (c : Char) (rest : Text) :
    r.step? c rest = (Part.read? r.mode c rest).bind fun (part, rest) => (r.take? part).map (·, rest) := by
  unfold step? Part.read?
  split
  · exact r.parenthesis?_eq rest
  · rfl
  · rfl
  · cases Bracket.read r.mode rest <;> rfl
  · rfl
  · rfl
  · rfl
  · cases readBounds r.mode rest <;> rfl
  · cases Atom.readEscape r.mode rest <;> rfl
  · rfl
  · rfl
  · rfl
  · simp only
    rfl

end Reader

/-! ## Parts with a parenthesis behind them -/

namespace Part

variable {mode : Mode} {text rest : Text} {part : Part} (behind : Text)

theorem readNamed?_append (h : readNamed? mode text = some (part, rest)) :
    readNamed? mode (text ++ behind) = some (part, rest ++ behind) := by
  obtain ⟨⟨name, inner⟩, hname, hresult⟩ := Option.map_eq_some_iff.1 h
  cases hresult
  simp [readNamed?, Reader.readName_append behind hname]

theorem readGroup?_append (hne : text ≠ []) (h : readGroup? mode text = some (part, rest)) :
    readGroup? mode (text ++ ')' :: behind) = some (part, rest ++ ')' :: behind) := by
  unfold readGroup? at h
  split at h
  · cases h
  · cases h
  · cases h
  · cases h
  · exact readNamed?_append _ h
  · next inner h₁ h₂ =>
    have h₁' : ∀ rest, inner ++ ')' :: behind = '=' :: rest → False := ne_append_paren behind ['='] (by decide) h₁
    have h₂' : ∀ rest, inner ++ ')' :: behind = '!' :: rest → False := ne_append_paren behind ['!'] (by decide) h₂
    simp only [readGroup?, List.cons_append]
    exact readNamed?_append _ h
  · next inner h₁ h₂ h₃ h₄ h₅ h₆ =>
    have h₁' : ∀ rest, inner ++ ')' :: behind = '=' :: rest → False := ne_append_paren behind ['='] (by decide) h₁
    have h₂' : ∀ rest, inner ++ ')' :: behind = '!' :: rest → False := ne_append_paren behind ['!'] (by decide) h₂
    have h₃' : ∀ rest, inner ++ ')' :: behind = '<' :: '=' :: rest → False :=
      ne_append_paren behind ['<', '='] (by decide) h₃
    have h₄' : ∀ rest, inner ++ ')' :: behind = '<' :: '!' :: rest → False :=
      ne_append_paren behind ['<', '!'] (by decide) h₄
    have h₅' : ∀ rest, inner ++ ')' :: behind = 'P' :: '<' :: rest → False :=
      ne_append_paren behind ['P', '<'] (by decide) h₅
    have h₆' : ∀ rest, inner ++ ')' :: behind = '<' :: rest → False := ne_append_paren behind ['<'] (by decide) h₆
    cases hswitches : Reader.readSwitches mode true [] inner with
    | none => simp [hswitches] at h
    | some result =>
      obtain ⟨switched, seen, last, tail⟩ := result
      simp only [hswitches] at h
      simp only [readGroup?, List.cons_append, Reader.readSwitches_append _ hswitches]
      split_ifs at h ⊢ <;> cases h <;> rfl
  · next h₁ h₂ h₃ h₄ h₅ h₆ h₇ =>
    have h₇' : ∀ rest, text ++ ')' :: behind = '?' :: rest → False := ne_append_paren behind ['?'] (by decide) h₇
    cases h
    rw [readGroup?]
    all_goals exact fun _ heq => h₇' _ heq

/-- a part is read the same with a parenthesis behind it, but for an open comment behind a counted repetition -/
theorem read?_append {c : Char} (h : read? mode c text = some (part, rest))
    (hopen : rest ≠ [] ∨ ∀ switched name, part ≠ opening switched name) :
    (∀ behind, read? mode c (text ++ ')' :: behind) = some (part, rest ++ ')' :: behind)) ∨
      (rest = [] ∧ ∀ behind, '\n' ∉ behind → read? mode c (text ++ ')' :: behind) = some (part, [])) := by
  unfold read? at h
  split at h
  · left
    intro behind
    cases hskip : mode.skip text with
    | nil =>
      rw [hskip] at h
      cases h
      exact absurd rfl (hopen.resolve_right fun hno => hno _ _ rfl)
    | cons x inner =>
      rw [hskip] at h
      simp only [read?, Mode.skip_append _ hskip]
      exact readGroup?_append behind (List.cons_ne_nil _ _) h
  · cases h
    exact .inl fun _ => rfl
  · cases h
    exact .inl fun _ => rfl
  · left
    intro behind
    obtain ⟨⟨s, inner⟩, hread, hresult⟩ := Option.map_eq_some_iff.1 h
    cases hresult
    simp [read?, Bracket.read_append behind hread]
  · cases h
    exact .inl fun behind => by simp only [read?, Reader.readGreed_paren]; rfl
  · cases h
    exact .inl fun behind => by simp only [read?, Reader.readGreed_paren]; rfl
  · cases h
    exact .inl fun behind => by simp only [read?, Reader.readGreed_paren]; rfl
  · cases hbounds : Reader.readBounds mode text with
    | none => simp [hbounds] at h
    | some result =>
      obtain ⟨⟨least, most⟩, inner⟩ := result
      simp only [hbounds] at h
      cases h
      rcases mode.closes_or_swallows inner with hcloses | ⟨hskip, hswallows⟩
      · left
        intro behind
        simp [read?, Reader.readBounds_append behind hbounds, hcloses behind, Reader.readGreed_paren]
      · right
        refine ⟨by rw [hskip]; rfl, fun behind hnot => ?_⟩
        have hnot' : '\n' ∉ ')' :: behind := by simpa using hnot
        simp [read?, Reader.readBounds_append behind hbounds, hswallows _ hnot', hskip, Reader.readGreed]
  · left
    intro behind
    obtain ⟨⟨atom, inner⟩, hread, hresult⟩ := Option.map_eq_some_iff.1 h
    cases hresult
    simp [read?, Atom.readEscape_append behind hread]
  · cases h
    exact .inl fun _ => rfl
  · cases h
    exact .inl fun _ => rfl
  · cases h
    exact .inl fun _ => rfl
  · cases h
    exact .inl fun behind => by simp only [read?]

end Part

/-! ## Reading to the end -/

/-- reading the text to its end gives the expression -/
inductive Reads : Reader → Text → Expr → Prop
  | done {r : Reader} {text : Text} : r.mode.skip text = [] → r.outer = [] → Reads r text r.level.expr
  | part {r r' : Reader} {text rest rest' : Text} {c : Char} {part : Part} {e : Expr} : r.mode.skip text = c :: rest →
      Part.read? r.mode c rest = some (part, rest') → r.take? part = some r' → Reads r' rest' e → Reads r text e

namespace Reads

variable {r : Reader} {text rest : Text} {c : Char} {e : Expr}

theorem of_run {fuel : Nat} (h : Reader.run fuel r text = some e) : Reads r text e := by
  induction fuel generalizing r text with
  | zero => cases h
  | succ fuel ih =>
    rw [Reader.run] at h
    cases hskip : r.mode.skip text with
    | nil =>
      simp only [hskip] at h
      split_ifs at h with houter
      cases h
      exact .done hskip (List.isEmpty_iff.1 houter)
    | cons c rest =>
      cases hstep : r.step? c rest with
      | none => simp [hskip, hstep] at h
      | some result =>
        obtain ⟨r', rest'⟩ := result
        simp only [hskip, hstep] at h
        rw [Reader.step?_eq] at hstep
        obtain ⟨⟨part, inner⟩, hread, htake⟩ := Option.bind_eq_some_iff.1 hstep
        obtain ⟨_, htake', hresult⟩ := Option.map_eq_some_iff.1 htake
        cases hresult
        exact .part hskip hread htake' (ih h)

theorem of_nil (h : Reads r text e) (hskip : r.mode.skip text = []) : r.outer = [] ∧ e = r.level.expr := by
  cases h with
  | done _ houter => exact ⟨houter, rfl⟩
  | part hskip' => simp [hskip] at hskip'

theorem of_cons (h : Reads r text e) (hskip : r.mode.skip text = c :: rest) : ∃ part rest' r',
    Part.read? r.mode c rest = some (part, rest') ∧ r.take? part = some r' ∧ Reads r' rest' e := by
  cases h with
  | done hskip' => simp [hskip] at hskip'
  | part hskip' hread htake hlater =>
    rw [hskip] at hskip'
    cases hskip'
    exact ⟨_, _, _, hread, htake, hlater⟩

end Reads

namespace Reader

variable {r r' : Reader} {part : Part}

/-- the reader inside further groups, with further names taken -/
def within (r : Reader) (used : List Text) (around : List Level) : Reader :=
  { r with names := r.names ++ used, outer := r.outer ++ around }

/-- the switches to restore when the outermost group ends -/
def bottomMode (r : Reader) : Mode := (r.outer.map (·.outerMode)).getLast?.getD r.level.outerMode

/-- a part does inside further groups what it does without them -/
theorem take?_within {used : List Text} {around : List Level} {q : Reader} (h : r.take? part = some r')
    (h' : (r.within used around).take? part = some q) : q = r'.within used around := by
  cases part with
  | piece e =>
    cases h
    cases h'
    rfl
  | repetition least most greedy =>
    simp only [take?, repeat?, within] at h h'
    rcases hpieces : r.level.pieces with _ | ⟨⟨e, _ | _⟩, pieces⟩
    all_goals
      simp only [hpieces] at h h'
      cases h
    cases h'
    rfl
  | bar =>
    cases h
    cases h'
    rfl
  | directive mode =>
    cases h
    cases h'
    rfl
  | opening mode name =>
    cases name with
    | none =>
      cases h
      cases h'
      rfl
    | some name =>
      simp only [take?] at h h'
      split_ifs at h h'
      cases h
      cases h'
      rfl
  | closing =>
    simp only [take?, closeGroup?, within] at h h'
    cases houter : r.outer with
    | nil => simp [houter] at h
    | cons level outer =>
      simp only [houter, List.cons_append] at h h'
      cases h
      cases h'
      rfl

theorem take?_bottomMode (h : r.take? part = some r') : r'.bottomMode = r.bottomMode := by
  cases part with
  | piece e =>
    cases h
    rfl
  | repetition least most greedy =>
    simp only [take?, repeat?] at h
    rcases hpieces : r.level.pieces with _ | ⟨⟨e, _ | _⟩, pieces⟩
    all_goals
      simp only [hpieces] at h
      cases h
    rfl
  | bar =>
    cases h
    rfl
  | directive mode =>
    cases h
    rfl
  | opening mode name =>
    cases name with
    | none =>
      cases h
      simp [bottomMode, openGroup, List.getLast?_cons]
    | some name =>
      simp only [take?] at h
      split_ifs at h
      cases h
      simp [bottomMode, openGroup, List.getLast?_cons]
  | closing =>
    simp only [take?, closeGroup?] at h
    cases houter : r.outer with
    | nil => simp [houter] at h
    | cons level outer =>
      simp only [houter] at h
      cases h
      simp [bottomMode, push, houter, List.getLast?_cons]

/-- a group has been begun -/
theorem take?_opening {mode : Mode} {name : Option Text} (h : r.take? (.opening mode name) = some r') :
    r'.outer ≠ [] := by
  cases name with
  | none =>
    cases h
    exact List.cons_ne_nil _ _
  | some name =>
    simp only [take?] at h
    split_ifs at h
    cases h
    exact List.cons_ne_nil _ _

/-- the reader before the first character of a pattern -/
def start : Reader := { mode := {}, level := { outerMode := {} } }

end Reader

/-! ## A pattern in a group -/

/-- the parts of the text lead from one reader to the other, and a parenthesis behind the text is seen -/
inductive ReadsWhole : Reader → Text → Reader → Prop
  | done {r : Reader} {text : Text} : r.mode.skip text = [] → r.mode.Closes text → ReadsWhole r text r
  | part {r r' r'' : Reader} {text rest rest' : Text} {c : Char} {part : Part} : r.mode.skip text = c :: rest →
      (∀ behind, Part.read? r.mode c (rest ++ ')' :: behind) = some (part, rest' ++ ')' :: behind)) →
      r.take? part = some r' → ReadsWhole r' rest' r'' → ReadsWhole r text r''

section

variable {r r' : Reader} {text behind : Text} {e out : Expr} {used : List Text}

/-- a pattern that has a meaning alone, and in a group with `$` behind it, ends in no open comment -/
theorem Reads.whole {around : List Level} (h : Reads r text e) (haround : around ≠ [])
    (h' : Reads (r.within used around) (text ++ [')', '$']) out) :
    ∃ r', ReadsWhole r text r' ∧ r'.outer = [] ∧ r'.level.expr = e := by
  have hinside : ∀ r : Reader, (r.within used around).outer ≠ [] := by
    intro r houter
    exact haround (List.append_eq_nil_iff.1 houter).2
  induction h with
  | @done r text hskip houter =>
    rcases r.mode.closes_or_swallows text with hcloses | ⟨-, hswallows⟩
    · exact ⟨r, .done hskip hcloses, houter, rfl⟩
    · exact absurd (h'.of_nil (hswallows _ (by decide))).1 (hinside r)
  | @part r r' text rest rest' c part e hskip hread htake hlater ih =>
    have hopen : rest' ≠ [] ∨ ∀ switched name, part ≠ .opening switched name := by
      by_cases hrest : rest' = []
      · right
        rintro switched name rfl
        subst hrest
        exact Reader.take?_opening htake (hlater.of_nil (Mode.skip_nil _)).1
      · exact .inl hrest
    obtain ⟨part', inner, q, hread', htake', hlater'⟩ := h'.of_cons (Mode.skip_append _ hskip)
    have hmode : (r.within used around).mode = r.mode := rfl
    rw [hmode] at hread'
    rcases Part.read?_append hread hopen with hsame | ⟨-, hswallowed⟩
    · rw [hsame] at hread'
      cases hread'
      rw [Reader.take?_within htake htake'] at hlater'
      obtain ⟨r'', hwhole, hend⟩ := ih hlater'
      exact ⟨r'', .part hskip hsame htake hwhole, hend⟩
    · -- the parenthesis is gone, so the group around stays open
      rw [hswallowed _ (by decide)] at hread'
      cases hread'
      rw [Reader.take?_within htake htake'] at hlater'
      exact absurd (hlater'.of_nil (Mode.skip_nil _)).1 (hinside r')

/-- the parenthesis ends the group, which has the expression of the pattern inside -/
theorem ReadsWhole.close {level : Level} {outer : List Level} (h : ReadsWhole r text r') (houter : r'.outer = [])
    (h' : Reads (r.within used (level :: outer)) (text ++ ')' :: behind) out) :
    ∃ names, Reads (Reader.push { mode := r.bottomMode, names, level, outer } r'.level.expr true) behind out := by
  induction h with
  | @done r text hskip hcloses =>
    have hskip' : (r.within used (level :: outer)).mode.skip (text ++ ')' :: behind) = ')' :: behind := by
      rw [Reader.within, hcloses, hskip, List.nil_append]
    obtain ⟨part, inner, q, hread, htake, hlater⟩ := h'.of_cons hskip'
    cases hread
    simp only [Reader.take?, Reader.closeGroup?, Reader.within, houter, List.nil_append] at htake
    cases htake
    have hbottom : r.bottomMode = r.level.outerMode := by rw [Reader.bottomMode, houter]; rfl
    rw [hbottom]
    exact ⟨r.names ++ used, hlater⟩
  | @part r r' r'' text rest rest' c part hskip hread htake hwhole ih =>
    obtain ⟨part', inner, q, hread', htake', hlater⟩ := h'.of_cons (Mode.skip_append _ hskip)
    have hmode : (r.within used (level :: outer)).mode = r.mode := rfl
    rw [hmode, hread] at hread'
    cases hread'
    rw [Reader.take?_within htake htake'] at hlater
    rw [← Reader.take?_bottomMode htake]
    exact ih houter hlater

/-- the text is a pattern with the expression, alone and in any group -/
def Stands (text : Text) (e : Expr) : Prop :=
  ∃ r, ReadsWhole .start text r ∧ r.outer = [] ∧ r.level.expr = e

theorem Reads.openGroup (hmode : r.mode = {}) (h : Reads r ('(' :: '?' :: ':' :: text) out) :
    Reads (r.openGroup {}) text out := by
  have hskip : r.mode.skip ('(' :: '?' :: ':' :: text) = '(' :: '?' :: ':' :: text := by rw [hmode]; rfl
  obtain ⟨part, inner, q, hread, htake, hlater⟩ := h.of_cons hskip
  rw [hmode] at hread
  cases hread
  cases htake
  exact hlater

/-- a group around a pattern is a piece with the expression of the pattern -/
theorem Stands.group (hstands : Stands text e) (hmode : r.mode = {})
    (h : Reads r ('(' :: '?' :: ':' :: (text ++ ')' :: behind)) out) :
    ∃ names, Reads ({ r with names }.push e true) behind out := by
  obtain ⟨r', hwhole, houter, rfl⟩ := hstands
  have hopened := h.openGroup hmode
  have hinside : r.openGroup {} = Reader.start.within r.names (r.level :: r.outer) := by
    rw [Reader.openGroup, hmode]
    rfl
  rw [hinside] at hopened
  obtain ⟨names, hlater⟩ := hwhole.close houter hopened
  refine ⟨names, ?_⟩
  rw [hmode]
  exact hlater

/-- **A pattern between anchors**: the expression is that of the pattern between anchors, and the pattern can stand in
any group. -/
theorem parse?_anchored (hparse : parse? text false = some e)
    (h : parse? (['^', '(', '?', ':'] ++ text ++ [')', '$']) false = some out) :
    Stands text e ∧ out = .seq (.anchor .textStart) (.seq e (.anchor .textEnd)) := by
  have hall : Reads .start ('^' :: '(' :: '?' :: ':' :: (text ++ [')', '$'])) out := .of_run h
  obtain ⟨_, _, _, hread, htake, hgroup⟩ := hall.of_cons rfl
  cases hread
  cases htake
  have hstands : Stands text e := (Reads.of_run hparse).whole (List.cons_ne_nil _ []) (hgroup.openGroup rfl)
  obtain ⟨names, hdollar⟩ := hstands.group rfl hgroup
  obtain ⟨_, _, _, hread, htake, hend⟩ := hdollar.of_cons rfl
  cases hread
  cases htake
  exact ⟨hstands, (hend.of_nil rfl).2⟩

/-- **Two patterns as branches**: the expression has those of the patterns as its branches. -/
theorem parse?_branches {text' : Text} {e' : Expr} (hstands : Stands text e) (hstands' : Stands text' e')
    (h : parse? (['(', '?', ':'] ++ text ++ [')', '|', '(', '?', ':'] ++ text' ++ [')']) false = some out) :
    out = .alt e e' := by
  have hsource : ['(', '?', ':'] ++ text ++ [')', '|', '(', '?', ':'] ++ text' ++ [')'] =
      '(' :: '?' :: ':' :: (text ++ ')' :: '|' :: '(' :: '?' :: ':' :: (text' ++ [')'])) := by
    simp
  rw [hsource] at h
  obtain ⟨names, hbar⟩ := hstands.group rfl (.of_run h)
  obtain ⟨_, _, _, hread, htake, hgroup⟩ := hbar.of_cons rfl
  cases hread
  cases htake
  obtain ⟨names, hend⟩ := hstands'.group rfl hgroup
  exact (hend.of_nil rfl).2

end

end Linewise.Regex
