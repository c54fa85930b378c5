/-
What a failed load leaves behind.

A definition is refused at once if it has no name, too many rules, or two rules of one name. Any other one has its styles
numbered before its rules are known to be sound: those it declares, then those that its rules use, up to the first rule that
lacks a pattern. Numbers are not taken back, so a definition that fails at such a rule leaves new styles behind.

Main statements:
- `compile_styles`: what compiling makes of a style table, whether or not it succeeds;
- `failed_load_unchanged_iff`: a failed load keeps all grammars and the numbers of all styles, and changes nothing exactly if
  the definition was refused at once or brings no new style; `failed_load_numbers` is a load that does.
-/
import Mathlib.Tactic.SplitIfs
import Linewise.Library

namespace Linewise

/-! ## Style tables -/

namespace StyleTable

variable {t : StyleTable} {name : String} {names : List String}

theorem intern_of_known {id : Nat} (h : t.id? name = some id) : t.intern name = (id, t) := by
  simp only [intern, h]

theorem intern_of_unknown (h : t.id? name = none) :
    t.intern name =
      (t.names.length + 1, { ids := (name, t.names.length + 1) :: t.ids, names := t.names ++ [name] }) := by
  simp only [intern, h]

theorem id?_cons (t : StyleTable) (name other : String) (id : Nat) (names : List String) :
    ({ ids := (name, id) :: t.ids, names := names } : StyleTable).id? other =
      if other = name then some id else t.id? other := by
  by_cases h : other = name
  · simp [id?, h]
  · simp [id?, List.lookup_cons, h, beq_eq_false_iff_ne.2 h]

@[simp] theorem declare_nil (t : StyleTable) : t.declare [] = t := rfl

@[simp] theorem declare_cons (t : StyleTable) (name : String) (names : List String) :
    t.declare (name :: names) = (t.intern name).2.declare names := rfl

theorem declare_append (t : StyleTable) (first second : List String) :
    t.declare (first ++ second) = (t.declare first).declare second := List.foldl_append

/-- styles stay in both parts of a table: names in their places, and numbers under their names -/
structure KeptBy (t t' : StyleTable) : Prop where
  names : t.names <+: t'.names
  ids : ∀ name id, t.id? name = some id → t'.id? name = some id

theorem KeptBy.refl (t : StyleTable) : t.KeptBy t := ⟨List.prefix_refl _, fun _ _ h => h⟩

theorem KeptBy.trans {t₁ t₂ t₃ : StyleTable} (h₁ : t₁.KeptBy t₂) (h₂ : t₂.KeptBy t₃) : t₁.KeptBy t₃ :=
  ⟨h₁.names.trans h₂.names, fun name id h => h₂.ids name id (h₁.ids name id h)⟩

theorem keptBy_intern (t : StyleTable) (name : String) : t.KeptBy (t.intern name).2 := by
  cases hid : t.id? name with
  | some id =>
    rw [intern_of_known hid]
    exact KeptBy.refl t
  | none =>
    rw [intern_of_unknown hid]
    refine ⟨List.prefix_append _ _, fun other id hother => ?_⟩
    -- a name that has a number is not the new one
    have hne : other ≠ name := by
      rintro rfl
      rw [hid] at hother
      cases hother
    rw [id?_cons, if_neg hne]
    exact hother

/-- styles keep their numbers: others are added after them -/
theorem keptBy_declare (t : StyleTable) (names : List String) : t.KeptBy (t.declare names) := by
  induction names generalizing t with
  | nil => exact KeptBy.refl t
  | cons name names ih => exact (t.keptBy_intern name).trans (ih _)

/-- numbering styles changes nothing exactly if all of them have numbers -/
theorem declare_eq_self_iff : t.declare names = t ↔ ∀ name ∈ names, (t.id? name).isSome := by
  induction names generalizing t with
  | nil => simp
  | cons name names ih =>
    rw [declare_cons, List.forall_mem_cons]
    cases hid : t.id? name with
    | some id =>
      rw [intern_of_known hid, ih]
      exact ⟨fun hall => ⟨rfl, hall⟩, fun hall => hall.2⟩
    | none =>
      refine ⟨fun hsame => ?_, fun hall => absurd hall.1 (by simp)⟩
      have hlonger := (keptBy_declare (t.intern name).2 names).names.length_le
      rw [hsame, intern_of_unknown hid, List.length_append, List.length_singleton] at hlonger
      omega

end StyleTable

/-! ## The styles that a definition has numbered -/

/-- a pattern that the rule needs is not written -/
def RuleDefinition.isFaulty (d : RuleDefinition) : Bool :=
  match d.resolvedKind with
  | .keyword => d.regex.isNone
  | .range => d.opening.isNone || d.closing.isNone

theorem RuleDefinition.toRule_isOk (d : RuleDefinition) (id : RuleId) (style : Nat) :
    (d.toRule id style).isOk = !d.isFaulty := by
  unfold toRule isFaulty
  cases d.resolvedKind with
  | keyword => cases d.regex <;> rfl
  | range => cases d.opening <;> cases d.closing <;> rfl

namespace GrammarDefinition

variable {d : GrammarDefinition} {styles : StyleTable}

/-- the style of a rule, if it has one; if the definition declares styles, it has to be one of these -/
def styleUsed (d : GrammarDefinition) (rule : RuleDefinition) : List String :=
  rule.style.toList.filter fun style => d.styles.isEmpty || d.styles.contains style

/-- the styles of rules up to the first faulty one -/
def stylesUsed (d : GrammarDefinition) : List RuleDefinition → List String
  | [] => []
  | rule :: rules => d.styleUsed rule ++ if rule.isFaulty then [] else d.stylesUsed rules

/-- the styles that are numbered, in order -/
def numbered (d : GrammarDefinition) : List String := d.styles ++ d.stylesUsed d.rules

/-- the definition is refused before a style is numbered -/
def RefusedAtOnce (d : GrammarDefinition) : Prop :=
  d.name.getD "" = "" ∨ RuleId.capacity < d.rules.length ∨ ¬ (d.rules.map (·.name)).Nodup

instance (d : GrammarDefinition) : Decidable d.RefusedAtOnce := inferInstanceAs (Decidable (_ ∨ _ ∨ _))

/-- compiling the definition numbers no style that is not in the table -/
def AddsNoStyle (d : GrammarDefinition) (styles : StyleTable) : Prop :=
  d.RefusedAtOnce ∨ ∀ name ∈ d.numbered, (styles.id? name).isSome

instance (d : GrammarDefinition) (styles : StyleTable) : Decidable (d.AddsNoStyle styles) :=
  inferInstanceAs (Decidable (_ ∨ _))

theorem styleOf_styles (d : GrammarDefinition) (name : String) (rule : RuleDefinition) (styles : StyleTable) :
    (d.styleOf name rule styles).2.1 = styles.declare (d.styleUsed rule) := by
  unfold styleOf styleUsed
  cases rule.style with
  | none => rfl
  | some style =>
    by_cases hallowed : (d.styles.isEmpty || d.styles.contains style) = true
    · simp only [StyleTable.resolve, if_pos hallowed, Option.toList_some, List.filter_cons, List.filter_nil,
        StyleTable.declare_cons, StyleTable.declare_nil]
    · simp only [StyleTable.resolve, if_neg hallowed, Option.toList_some, List.filter_cons, List.filter_nil,
        StyleTable.declare_nil]

theorem compileRules_styles (d : GrammarDefinition) (name : String) (styles : StyleTable) (index : Nat)
    (rules : List RuleDefinition) :
    (d.compileRules name styles index rules).styles = styles.declare (d.stylesUsed rules) := by
  induction rules generalizing styles index with
  | nil => rfl
  | cons rule rules ih =>
    -- the style of the rule is numbered before its patterns are looked at
    have hok := rule.toRule_isOk (RuleId.ofIndex index) (d.styleOf name rule styles).1
    rw [stylesUsed, StyleTable.declare_append, ← styleOf_styles d name rule styles]
    cases hrule : rule.toRule (RuleId.ofIndex index) (d.styleOf name rule styles).1 with
    | error error =>
      have hfaulty : rule.isFaulty = true := by simpa [hrule, Except.isOk, Except.toBool] using hok
      simp only [compileRules, hrule, if_pos hfaulty, StyleTable.declare_nil]
    | ok compiled =>
      have hsound : ¬ rule.isFaulty = true := by simpa [hrule, Except.isOk, Except.toBool] using hok
      simp only [compileRules, hrule, if_neg hsound, ih]

theorem repeatedName?_eq_none_iff {used : List String} {rules : List RuleDefinition} :
    repeatedName? used rules = none ↔ (∀ name ∈ rules.map (·.name), name ∉ used) ∧ (rules.map (·.name)).Nodup := by
  induction rules generalizing used with
  | nil => simp [repeatedName?]
  | cons rule rules ih =>
    simp only [repeatedName?, List.map_cons, List.forall_mem_cons, List.nodup_cons]
    by_cases hused : rule.name ∈ used
    · simp [hused]
    · simp only [List.contains_eq_mem, hused, decide_false, Bool.false_eq_true, if_false, ih, List.mem_cons, not_or]
      grind

theorem assemble_styles (d : GrammarDefinition) (name : String) (compiled : Compiled (List Rule)) :
    (d.assemble name compiled).styles = compiled.styles := by
  unfold assemble
  split
  · rfl
  · simp only
    split <;> rfl

/-- **What compiling makes of a style table**, whether or not it succeeds. -/
theorem compile_styles (d : GrammarDefinition) (styles : StyleTable) :
    (d.compile styles).styles = if d.RefusedAtOnce then styles else styles.declare d.numbered := by
  unfold compile
  -- the table is touched only past the checks of the name, of the number of rules and of their names
  split
  · rename_i hname
    have hrefused : d.RefusedAtOnce := Or.inl (by rw [hname]; rfl)
    rw [if_pos hrefused]
  · rename_i hname
    have hrefused : d.RefusedAtOnce := Or.inl (by rw [hname]; rfl)
    rw [if_pos hrefused]
  · rename_i name hne hname
    have hnamed : ¬ d.name.getD "" = "" := by
      rw [hname]
      exact hne
    by_cases hmany : RuleId.capacity < d.rules.length
    · have hrefused : d.RefusedAtOnce := Or.inr (Or.inl hmany)
      rw [if_pos hmany, if_pos hrefused]
    · rw [if_neg hmany]
      cases hrepeated : repeatedName? [] d.rules with
      | some rule =>
        have hrefused : d.RefusedAtOnce := by
          refine Or.inr (Or.inr fun hnodup => ?_)
          have hnone := repeatedName?_eq_none_iff.2 ⟨fun _ _ => List.not_mem_nil, hnodup⟩
          rw [hrepeated] at hnone
          cases hnone
        rw [if_pos hrefused]
      | none =>
        have hadmitted : ¬ d.RefusedAtOnce := by
          rintro (hempty | hlong | hdouble)
          · exact hnamed hempty
          · exact hmany hlong
          · exact hdouble (repeatedName?_eq_none_iff.1 hrepeated).2
        rw [if_neg hadmitted]
        simp only [assemble_styles, compileRules_styles, numbered, StyleTable.declare_append]

theorem keptBy_compile (d : GrammarDefinition) (styles : StyleTable) : styles.KeptBy (d.compile styles).styles := by
  rw [compile_styles]
  split_ifs
  · exact StyleTable.KeptBy.refl styles
  · exact styles.keptBy_declare _

theorem compile_eq_self_iff : (d.compile styles).styles = styles ↔ d.AddsNoStyle styles := by
  rw [compile_styles, AddsNoStyle]
  split_ifs with hrefused
  · exact ⟨fun _ => Or.inl hrefused, fun _ => rfl⟩
  · rw [StyleTable.declare_eq_self_iff]
    exact ⟨Or.inr, fun h => h.resolve_left hrefused⟩

end GrammarDefinition

/-! ## Failed loads -/

namespace Library

variable {l : Library}

/-- the definition written in YAML, if it is one -/
def definition? (yaml : Text) : Option GrammarDefinition := (Yaml.parse? yaml).bind GrammarDefinition.ofNode?

/-- the same grammars, and the same styles with the same numbers; others may have come after them -/
structure KeptBy (l l' : Library) : Prop where
  grammars : l'.grammars = l.grammars
  styles : l.styles.KeptBy l'.styles

theorem insert_failed {d : GrammarDefinition} {error : LoadError} (h : (l.insert d).result = .error error) :
    (l.insert d).library = { l with styles := (d.compile l.styles).styles } := by
  unfold insert at h ⊢
  simp only at h ⊢
  split at h
  · rfl
  · cases h

theorem insert_failed_iff {d : GrammarDefinition} {error : LoadError} (h : (l.insert d).result = .error error) :
    l.KeptBy (l.insert d).library ∧ ((l.insert d).library = l ↔ d.AddsNoStyle l.styles) := by
  rw [insert_failed h, ← GrammarDefinition.compile_eq_self_iff]
  refine ⟨⟨rfl, d.keptBy_compile l.styles⟩, fun hsame => congrArg Library.styles hsame, fun hsame => ?_⟩
  rw [hsame]

theorem load_of_definition {yaml : Text} {d : GrammarDefinition} (h : definition? yaml = some d) :
    l.load yaml = l.insert d := by
  rw [definition?] at h
  simp only [load, h]

theorem load_failed_iff {yaml : Text} {error : LoadError} (h : (l.load yaml).result = .error error) :
    l.KeptBy (l.load yaml).library ∧
      ((l.load yaml).library = l ↔ ∀ d, definition? yaml = some d → d.AddsNoStyle l.styles) := by
  cases hd : definition? yaml with
  | none =>
    have hload : (l.load yaml).library = l := by
      rw [definition?] at hd
      simp only [load, hd]
    rw [hload]
    exact ⟨⟨rfl, StyleTable.KeptBy.refl _⟩, fun _ d hd' => absurd hd' (by simp), fun _ => rfl⟩
  | some d =>
    rw [load_of_definition hd] at h ⊢
    obtain ⟨hkept, hiff⟩ := insert_failed_iff h
    refine ⟨hkept, hiff.trans ⟨?_, fun hall => hall d rfl⟩⟩
    intro hadds other hother
    cases hother
    exact hadds

/-- **What a failed load leaves behind.** All grammars stay, and all styles with their numbers. Nothing changes at all exactly
if the definition was refused at once or has no style numbered that is not known; a text that is no definition is refused
at once. -/
theorem failed_load_unchanged_iff (l : Library) :
    (∀ (d : GrammarDefinition) (error : LoadError), (d.compile l.styles).result = .error error →
      l.styles.KeptBy (d.compile l.styles).styles ∧
        ((d.compile l.styles).styles = l.styles ↔ d.AddsNoStyle l.styles)) ∧
    (∀ (d : GrammarDefinition) (error : LoadError), (l.insert d).result = .error error →
      l.KeptBy (l.insert d).library ∧ ((l.insert d).library = l ↔ d.AddsNoStyle l.styles)) ∧
    ∀ (yaml : Text) (error : LoadError), (l.load yaml).result = .error error →
      l.KeptBy (l.load yaml).library ∧
        ((l.load yaml).library = l ↔ ∀ d, definition? yaml = some d → d.AddsNoStyle l.styles) := by
  refine ⟨?_, ?_, ?_⟩
  · intro d error _
    exact ⟨d.keptBy_compile l.styles, GrammarDefinition.compile_eq_self_iff⟩
  · intro d error h
    exact insert_failed_iff h
  · intro yaml error h
    exact load_failed_iff h

/-- one rule, with a style and without a pattern -/
def patternless : GrammarDefinition where
  name := some "g"
  styles := ["comment"]
  rules := [{ name := "p", style := some "comment" }]

/-- the same in YAML -/
def patternlessYaml : Text := "name: g\nstyles: [comment]\npatterns:\n  - name: p\n    style: comment\n".toList

theorem definition?_patternless : definition? patternlessYaml = some patternless := by decide +kernel

theorem load_patternless : (({} : Library).load patternlessYaml).result = .error (.missingField "p" "regex") := by
  rw [load_of_definition definition?_patternless]
  rfl

/-- it was not refused at once, and its style is new -/
theorem failed_load_unchanged_iff_patternless :
    let l : Library := {}
    (l.load patternlessYaml).result = .error (.missingField "p" "regex") ∧ l.KeptBy (l.load patternlessYaml).library ∧
      (l.load patternlessYaml).library ≠ l := by
  intro l
  obtain ⟨hkept, hiff⟩ := (failed_load_unchanged_iff l).2.2 patternlessYaml _ load_patternless
  refine ⟨load_patternless, hkept, fun hsame => ?_⟩
  have hadds := hiff.1 hsame patternless definition?_patternless
  exact absurd hadds (by decide)

/-- the style is numbered 1 afterwards, though no grammar was loaded that has it -/
theorem failed_load_numbers :
    let l : Library := {}
    (l.load patternlessYaml).result = .error (.missingField "p" "regex") ∧ l.styles.id? "comment" = none ∧
      (l.load patternlessYaml).library.styles.id? "comment" = some 1 := by
  refine ⟨load_patternless, rfl, ?_⟩
  rw [load_of_definition definition?_patternless]
  rfl

end Library

end Linewise
