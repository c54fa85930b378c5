/-
The numbers of styles over the life of a library.

Whatever is asked of a library or of its style table comes to numbering a list of names in order (`Call.numbers`,
`run_styles`), whether or not a grammar comes out of it. So a table is what a run of calls has numbered. Its two parts
are written together only when a new name is numbered, and that keeps them in step (`StyleTable.InStep.intern`): a number
is found under a name exactly if the name stands in its place. With names only ever put after others, all that is said of
numbers follows: no name has two, none is left out, and none changes its name.
Grammars keep only numbers; those of their rules name the styles written in their definitions in every later table
(`StyledAs`).

Main statement: `style_ids_stable`.
-/
import Mathlib.Data.List.Forall2
import Mathlib.Data.List.Nodup
import Linewise.Proofs.Grammar.Built
import Linewise.Proofs.Library.FailedLoad

namespace Linewise

/-! ## Tables whose parts are in step -/

namespace StyleTable

variable {t t' : StyleTable} {name : String} {id : Nat}

/-- number and name determine each other: a number is found under a name exactly if the name stands in its place -/
def InStep (t : StyleTable) : Prop := ∀ name id, t.id? name = some id ↔ t.name? id = some name

theorem inStep_empty : ({} : StyleTable).InStep := by
  intro name id
  simp [id?, name?]

theorem name?_eq_some_iff : t.name? id = some name ↔ 0 < id ∧ t.names[id - 1]? = some name := by
  unfold name?
  split_ifs with hid
  · simp [hid]
  · exact ⟨fun h => ⟨by omega, h⟩, fun h => h.2⟩

theorem name?_isSome_iff : (∃ name, t.name? id = some name) ↔ 1 ≤ id ∧ id ≤ t.size := by
  simp only [name?_eq_some_iff, exists_and_left]
  refine and_congr_right fun hid => ?_
  rw [← Option.isSome_iff_exists, size, isSome_getElem?]
  omega

/-- two places with one name would both be the number of that name -/
theorem InStep.nodup (h : t.InStep) : t.names.Nodup := by
  have hid : ∀ (place : Nat) (hlt : place < t.names.length), t.id? t.names[place] = some (place + 1) := by
    intro place hlt
    apply (h _ _).2
    rw [name?_eq_some_iff, Nat.add_sub_cancel]
    exact ⟨Nat.succ_pos place, List.getElem?_eq_getElem hlt⟩
  apply List.nodup_iff_injective_get.2
  intro i j hsame
  have hi := hid i.1 i.2
  have hj := hid j.1 j.2
  have hij : t.names[i.1] = t.names[j.1] := hsame
  rw [hij, hj] at hi
  exact Fin.ext (Nat.succ.inj (Option.some.inj hi)).symm

/-- names keep their numbers as long as others only come after them -/
theorem name?_of_prefix (h : t.names <+: t'.names) (hname : t.name? id = some name) : t'.name? id = some name := by
  rw [name?_eq_some_iff] at hname ⊢
  obtain ⟨hid, hname⟩ := hname
  obtain ⟨hlt, -⟩ := List.getElem?_eq_some_iff.1 hname
  obtain ⟨others, hothers⟩ := h
  rw [← hothers, List.getElem?_append_left hlt]
  exact ⟨hid, hname⟩

/-- a name put after all others has the number after theirs, and the others have theirs -/
theorem name?_concat (ids : List (String × Nat)) (names : List String) (last : String) :
    ({ ids := ids, names := names ++ [last] } : StyleTable).name? id = some name ↔
      ({ ids := ids, names := names } : StyleTable).name? id = some name ∨ id = names.length + 1 ∧ name = last := by
  simp only [name?_eq_some_iff, List.getElem?_append, List.getElem?_singleton]
  split_ifs with hlt hlast
  · grind
  · grind
  · grind

/-- **A new name goes into both parts with one number**, and a known one into neither. -/
theorem InStep.intern (h : t.InStep) (name : String) : (t.intern name).2.InStep := by
  cases hid : t.id? name with
  | some id =>
    rw [intern_of_known hid]
    exact h
  | none =>
    have hnew : ∀ id, t.name? id ≠ some name := by
      intro id hname
      rw [(h name id).2 hname] at hid
      cases hid
    intro other id
    rw [intern_of_unknown hid, id?_cons, name?_concat]
    by_cases hother : other = name
    · subst hother
      rw [if_pos rfl, Option.some.injEq]
      constructor
      · rintro rfl
        exact Or.inr ⟨rfl, rfl⟩
      · rintro (hname | ⟨rfl, -⟩)
        · exact absurd hname (hnew id)
        · rfl
    · rw [if_neg hother, h other id]
      constructor
      · exact Or.inl
      · rintro (hname | ⟨-, hsame⟩)
        · exact hname
        · exact absurd hsame hother

theorem InStep.declare (h : t.InStep) (names : List String) : (t.declare names).InStep := by
  induction names generalizing t with
  | nil => exact h
  | cons name names ih => exact ih (h.intern name)

/-- the number given to a name is its number from then on -/
theorem name?_intern (h : t.InStep) (name : String) : (t.intern name).2.name? (t.intern name).1 = some name := by
  apply (h.intern name _ _).1
  cases hid : t.id? name with
  | some id =>
    rw [intern_of_known hid]
    exact hid
  | none => rw [intern_of_unknown hid, id?_cons, if_pos rfl]

theorem resolve_allowed {declared : List String} (h : declared = [] ∨ name ∈ declared) :
    t.resolve declared name = (some (t.intern name).1, (t.intern name).2) := by
  have hallowed : (declared.isEmpty || declared.contains name) = true := by simpa using h
  rw [resolve, if_pos hallowed]

theorem resolve_refused {declared : List String} (h : ¬ (declared = [] ∨ name ∈ declared)) :
    t.resolve declared name = (none, t) := by
  have hrefused : ¬ (declared.isEmpty || declared.contains name) = true := by simpa using h
  rw [resolve, if_neg hrefused]

end StyleTable

/-! ## The styles of compiled rules -/

namespace GrammarDefinition

variable {d : GrammarDefinition} {t t' : StyleTable}

/-- a rule was compiled with the style that the definition gives it: the default one if it has no style of its own, and
otherwise a number that the table has for it -/
structure StyledAs (d : GrammarDefinition) (t : StyleTable) (written : RuleDefinition) (rule : Rule) : Prop where
  default_iff : rule.style = defaultStyle ↔
    written.style = none ∨ ∃ style, written.style = some style ∧ d.styles ≠ [] ∧ style ∉ d.styles
  named : rule.style ≠ defaultStyle → t.name? rule.style = written.style

theorem StyledAs.mono {written : RuleDefinition} {rule : Rule} (h : d.StyledAs t written rule)
    (hkept : t.names <+: t'.names) : d.StyledAs t' written rule := by
  refine ⟨h.default_iff, fun hstyle => ?_⟩
  have hnamed := h.named hstyle
  cases hwritten : written.style with
  | none => exact absurd (h.default_iff.2 (Or.inl hwritten)) hstyle
  | some style => exact StyleTable.name?_of_prefix hkept (hnamed.trans hwritten)

/-- only the style of a rule matters -/
theorem StyledAs.of_style {written : RuleDefinition} {rule other : Rule} (h : d.StyledAs t written rule)
    (hstyle : other.style = rule.style) : d.StyledAs t written other :=
  ⟨by rw [hstyle]; exact h.default_iff, by rw [hstyle]; exact h.named⟩

theorem styleOf_styledAs (ht : t.InStep) {name : String} {written : RuleDefinition} {rule : Rule}
    (hstyle : rule.style = (d.styleOf name written t).1) : d.StyledAs (d.styleOf name written t).2.1 written rule := by
  cases hwritten : written.style with
  | none =>
    have hof : d.styleOf name written t = (defaultStyle, t, []) := by simp only [styleOf, hwritten]
    rw [hof] at hstyle ⊢
    exact ⟨⟨fun _ => Or.inl hwritten, fun _ => hstyle⟩, fun hother => absurd hstyle hother⟩
  | some style =>
    by_cases hallowed : d.styles = [] ∨ style ∈ d.styles
    · have hof : d.styleOf name written t = ((t.intern style).1, (t.intern style).2, []) := by
        simp only [styleOf, hwritten, StyleTable.resolve_allowed hallowed]
      have hnumber := StyleTable.name?_intern ht style
      rw [hof] at hstyle ⊢
      rw [← hstyle] at hnumber
      have hpositive := (StyleTable.name?_eq_some_iff.1 hnumber).1
      refine ⟨⟨fun hdefault => ?_, ?_⟩, fun _ => hnumber.trans hwritten.symm⟩
      · rw [hdefault, defaultStyle] at hpositive
        omega
      · rintro (hnone | ⟨other, hother, hne, hout⟩)
        · rw [hwritten] at hnone
          cases hnone
        · rw [hwritten] at hother
          cases hother
          exact absurd hallowed (not_or.2 ⟨hne, hout⟩)
    · have hof : d.styleOf name written t = (defaultStyle, t, [.undeclaredStyle name written.name style]) := by
        simp only [styleOf, hwritten, StyleTable.resolve_refused hallowed]
      rw [hof] at hstyle ⊢
      obtain ⟨hne, hout⟩ := not_or.1 hallowed
      exact ⟨⟨fun _ => Or.inr ⟨style, hwritten, hne, hout⟩, fun _ => hstyle⟩, fun hother => absurd hstyle hother⟩

theorem toRule_style {written : RuleDefinition} {id : RuleId} {style : Nat} {rule : Rule}
    (h : written.toRule id style = .ok rule) : rule.style = style := by
  unfold RuleDefinition.toRule at h
  cases hkind : written.resolvedKind with
  | keyword =>
    cases hregex : written.regex with
    | none => simp [hkind, hregex] at h
    | some regex =>
      simp only [hkind, hregex, Except.ok.injEq] at h
      rw [← h]
      rfl
  | range =>
    cases hopening : written.opening with
    | none => simp [hkind, hopening] at h
    | some opening =>
      cases hclosing : written.closing with
      | none => simp [hkind, hopening, hclosing] at h
      | some closing =>
        simp only [hkind, hopening, hclosing, Except.ok.injEq] at h
        rw [← h]
        rfl

/-- by induction on the rules: each style is numbered before the rules below, and these keep the numbers above -/
theorem compileRules_styledAs (ht : t.InStep) {name : String} {index : Nat} {written : List RuleDefinition}
    {rules : List Rule} (h : (d.compileRules name t index written).result = .ok rules) :
    List.Forall₂ (d.StyledAs (d.compileRules name t index written).styles) written rules := by
  induction written generalizing t index rules with
  | nil =>
    cases h
    exact .nil
  | cons first written ih =>
    have hstep : (d.styleOf name first t).2.1.InStep := by
      rw [styleOf_styles]
      exact ht.declare _
    cases hrule : first.toRule (RuleId.ofIndex index) (d.styleOf name first t).1 with
    | error error =>
      simp only [compileRules, hrule] at h
      cases h
    | ok rule =>
      simp only [compileRules, hrule] at h ⊢
      cases hothers : (d.compileRules name (d.styleOf name first t).2.1 (index + 1) written).result with
      | error error =>
        rw [hothers] at h
        cases h
      | ok others =>
        rw [hothers] at h
        cases h
        have hkept : (d.styleOf name first t).2.1.KeptBy
            (d.compileRules name (d.styleOf name first t).2.1 (index + 1) written).styles := by
          rw [compileRules_styles]
          exact StyleTable.keptBy_declare _ _
        have hfirst := styleOf_styledAs ht (toRule_style hrule)
        exact .cons ((hfirst.mono hkept.names).of_style rfl) (ih hstep hothers)

theorem build_styledAs {name : String} {written : List RuleDefinition} {rules : List Rule} {delimiters : List Delimiter}
    {indents : List IndentPattern} {g : Grammar} (h : Grammar.build name rules delimiters indents = .ok g)
    (hrules : List.Forall₂ (d.StyledAs t) written rules) : List.Forall₂ (d.StyledAs t) written g.rules := by
  rw [(Grammar.rules_of_build h).2, Grammar.linkChildren, List.map_map]
  refine List.forall₂_map_right_iff.2 (hrules.imp fun first rule hstyled => hstyled.of_style ?_)
  rw [Function.comp_apply, Grammar.adopt]
  split_ifs <;> rfl

/-- **The rules of a compiled grammar have the styles written in its definition.** -/
theorem compile_styledAs (ht : t.InStep) {g : Grammar} (h : (d.compile t).result = .ok g) :
    List.Forall₂ (d.StyledAs (d.compile t).styles) d.rules g.rules := by
  unfold compile at h ⊢
  split at h
  · cases h
  · cases h
  · rename_i name hne hname
    split_ifs at h ⊢
    split at h
    · cases h
    · rename_i hrepeated
      simp only [assemble_styles]
      unfold assemble at h
      split at h
      · cases h
      · rename_i rules hrules
        split at h
        · cases h
        · rename_i grammar hbuild
          cases h
          exact build_styledAs hbuild (compileRules_styledAs (ht.declare _) hrules)

/-- the names that compiling the definition numbers, in order -/
def numbers (d : GrammarDefinition) : List String := if d.RefusedAtOnce then [] else d.numbered

theorem compile_numbers (d : GrammarDefinition) (t : StyleTable) : (d.compile t).styles = t.declare d.numbers := by
  rw [compile_styles, numbers]
  split_ifs <;> rfl

end GrammarDefinition

/-! ## Runs of calls -/

namespace Library

/-- what can be asked of a library, of its style table, or of a definition compiled with that table -/
inductive Call where
  | intern (name : String)
  | declare (declared : List String)
  | resolve (declared : List String) (name : String)
  | compile (definition : GrammarDefinition)
  | insert (definition : GrammarDefinition)
  | load (yaml : Text)
  | loadFile (content : Option ByteArray)

/-- the library after a call -/
def call (l : Library) : Call → Library
  | .intern name => { l with styles := (l.styles.intern name).2 }
  | .declare declared => { l with styles := l.styles.declare declared }
  | .resolve declared name => { l with styles := (l.styles.resolve declared name).2 }
  | .compile d => { l with styles := (d.compile l.styles).styles }
  | .insert d => (l.insert d).library
  | .load yaml => (l.load yaml).library
  | .loadFile content => (l.loadFile content).library

/-- the library after calls -/
def run (l : Library) (calls : List Call) : Library := calls.foldl call l

/-- the grammar that comes out of a call -/
def grammar? (l : Library) : Call → Option Grammar
  | .intern _ | .declare _ | .resolve .. => none
  | .compile d => (d.compile l.styles).result.toOption
  | .insert d => (l.insert d).result.toOption
  | .load yaml => (l.load yaml).result.toOption
  | .loadFile content => (l.loadFile content).result.toOption

namespace Call

/-- the definition that a call compiles -/
def definition? : Call → Option GrammarDefinition
  | .intern _ | .declare _ | .resolve .. => none
  | .compile d | .insert d => some d
  | .load yaml => Library.definition? yaml
  | .loadFile content => (content.bind String.fromUTF8?).bind fun yaml => Library.definition? yaml.toList

/-- the names that a call numbers, in order; those that have a number keep it -/
def numbers : Call → List String
  | .intern name => [name]
  | .declare declared => declared
  | .resolve declared name => if declared = [] ∨ name ∈ declared then [name] else []
  | c => c.definition?.elim [] GrammarDefinition.numbers

theorem numbers_of_definition {c : Call} {d : GrammarDefinition} (h : c.definition? = some d) : c.numbers = d.numbers := by
  cases c with
  | intern name => cases h
  | declare declared => cases h
  | resolve declared name => cases h
  | compile other => simp only [numbers, h, Option.elim_some]
  | insert other => simp only [numbers, h, Option.elim_some]
  | load yaml => simp only [numbers, h, Option.elim_some]
  | loadFile content => simp only [numbers, h, Option.elim_some]

end Call

variable {l : Library}

theorem insert_compiles (l : Library) (d : GrammarDefinition) :
    (l.insert d).library.styles = (d.compile l.styles).styles ∧ (l.insert d).result = (d.compile l.styles).result := by
  unfold insert
  simp only
  split
  · rename_i error herror
    exact ⟨rfl, herror.symm⟩
  · rename_i g hg
    exact ⟨rfl, hg.symm⟩

/-- a text is compiled if it is a definition, and refused otherwise -/
theorem load_compiles (l : Library) (yaml : Text) :
    (l.load yaml).library.styles = (definition? yaml).elim l.styles (fun d => (d.compile l.styles).styles) ∧
      (l.load yaml).result.toOption = (definition? yaml).bind fun d => (d.compile l.styles).result.toOption := by
  cases hd : definition? yaml with
  | none =>
    rw [definition?] at hd
    simp only [load, hd]
    exact ⟨rfl, rfl⟩
  | some d =>
    obtain ⟨hstyles, hresult⟩ := insert_compiles l d
    rw [load_of_definition hd, hresult]
    exact ⟨hstyles, rfl⟩

theorem loadFile_compiles (l : Library) (content : Option ByteArray) :
    (l.loadFile content).library.styles =
        (Call.loadFile content).definition?.elim l.styles (fun d => (d.compile l.styles).styles) ∧
      (l.loadFile content).result.toOption =
        (Call.loadFile content).definition?.bind fun d => (d.compile l.styles).result.toOption := by
  simp only [loadFile, Call.definition?]
  cases content.bind String.fromUTF8? with
  | none => exact ⟨rfl, rfl⟩
  | some yaml => exact load_compiles l yaml.toList

/-- the grammar of a call is compiled from its definition, with the style table that the library then had -/
theorem grammar?_eq (l : Library) (c : Call) :
    l.grammar? c = c.definition?.bind fun d => (d.compile l.styles).result.toOption := by
  cases c with
  | intern name => rfl
  | declare declared => rfl
  | resolve declared name => rfl
  | compile d => rfl
  | insert d =>
    rw [grammar?, (insert_compiles l d).2]
    rfl
  | load yaml => exact (load_compiles l yaml).2
  | loadFile content => exact (loadFile_compiles l content).2

/-- **A call comes to numbering names in order**, also if it fails. -/
theorem call_styles (l : Library) (c : Call) : (l.call c).styles = l.styles.declare c.numbers := by
  have hdefinition : ∀ d? : Option GrammarDefinition, d?.elim l.styles (fun d => (d.compile l.styles).styles) =
      l.styles.declare (d?.elim [] GrammarDefinition.numbers) := by
    intro d?
    cases d? with
    | none => rfl
    | some d => exact d.compile_numbers l.styles
  cases c with
  | intern name => rfl
  | declare declared => rfl
  | resolve declared name =>
    by_cases hallowed : declared = [] ∨ name ∈ declared
    · simp only [call, Call.numbers, StyleTable.resolve_allowed hallowed, if_pos hallowed]
      rfl
    · simp only [call, Call.numbers, StyleTable.resolve_refused hallowed, if_neg hallowed]
      rfl
  | compile d => exact d.compile_numbers l.styles
  | insert d => exact (insert_compiles l d).1.trans (d.compile_numbers l.styles)
  | load yaml => exact (load_compiles l yaml).1.trans (hdefinition _)
  | loadFile content => exact (loadFile_compiles l content).1.trans (hdefinition _)

/-- **So does a run of calls.** -/
theorem run_styles (l : Library) (calls : List Call) :
    (l.run calls).styles = l.styles.declare (calls.flatMap Call.numbers) := by
  induction calls generalizing l with
  | nil => rfl
  | cons c calls ih =>
    calc (l.run (c :: calls)).styles
        = (l.call c).styles.declare (calls.flatMap Call.numbers) := ih (l.call c)
      _ = (l.styles.declare c.numbers).declare (calls.flatMap Call.numbers) := by rw [call_styles]
      _ = l.styles.declare ((c :: calls).flatMap Call.numbers) := by rw [List.flatMap_cons, StyleTable.declare_append]

/-- numbers given are kept by whatever comes later -/
theorem keptBy_run (l : Library) (calls : List Call) : l.styles.KeptBy (l.run calls).styles := by
  rw [run_styles]
  exact StyleTable.keptBy_declare _ _

theorem inStep_run (h : l.styles.InStep) (calls : List Call) : (l.run calls).styles.InStep := by
  rw [run_styles]
  exact h.declare _

/-- a name has the number that it has after a call in every later table -/
theorem id?_run_cons (h : l.styles.InStep) {c : Call} {name : String} {id : Nat}
    (hname : (l.call c).styles.name? id = some name) (later : List Call) :
    (l.run (c :: later)).styles.id? name = some id := by
  apply (inStep_run h (c :: later) name id).2
  exact StyleTable.name?_of_prefix (keptBy_run (l.call c) later).names hname

/-- what a style used in a grammar resolves to is its number in every later table -/
theorem id?_run_resolve (h : l.styles.InStep) {declared : List String} {name : String} {id : Nat}
    (hid : (l.styles.resolve declared name).1 = some id) (later : List Call) :
    (l.run (.resolve declared name :: later)).styles.id? name = some id := by
  by_cases hallowed : declared = [] ∨ name ∈ declared
  · apply id?_run_cons h
    rw [StyleTable.resolve_allowed hallowed] at hid
    cases hid
    simp only [call, StyleTable.resolve_allowed hallowed]
    exact StyleTable.name?_intern h name
  · rw [StyleTable.resolve_refused hallowed] at hid
    cases hid

/-- the rules of a grammar have the styles of its definition in every later table -/
theorem styledAs_run (h : l.styles.InStep) {c : Call} {d : GrammarDefinition} {g : Grammar}
    (hd : c.definition? = some d) (hg : l.grammar? c = some g) (later : List Call) :
    List.Forall₂ (d.StyledAs (l.run (c :: later)).styles) d.rules g.rules := by
  have hresult : (d.compile l.styles).result = .ok g := by
    rw [grammar?_eq, hd, Option.bind_some] at hg
    cases hcompiled : (d.compile l.styles).result with
    | error error => simp [hcompiled, Except.toOption] at hg
    | ok other =>
      rw [hcompiled] at hg
      cases hg
      rfl
  have hkept : (d.compile l.styles).styles.KeptBy (l.run (c :: later)).styles := by
    rw [d.compile_numbers, ← Call.numbers_of_definition hd, ← call_styles]
    exact keptBy_run (l.call c) later
  exact (GrammarDefinition.compile_styledAs h hresult).imp fun _ _ hstyled => hstyled.mono hkept.names

/-- **Styles are numbered from 1 without gaps, each once, and a number keeps its name for ever.** At any point of a
run of calls, of which some fail and some load a grammar again, the names are distinct, the numbers in use are those
up to their count, and number and name determine each other. Whatever comes later leaves that so; what a call was
given as a number is the number of that style then, and the rules of a grammar that a call compiled still have the
styles of its definition. -/
theorem style_ids_stable (calls later : List Call) :
    let l := ({} : Library).run calls
    l.styles.names.Nodup ∧
      (∀ id, (∃ name, l.styles.name? id = some name) ↔ 1 ≤ id ∧ id ≤ l.styles.size) ∧
      (∀ id name, l.styles.id? name = some id ↔ l.styles.name? id = some name) ∧
      (∀ id name, l.styles.name? id = some name → (l.run later).styles.name? id = some name) ∧
      (∀ name, (l.run (.intern name :: later)).styles.id? name = some (l.styles.intern name).1) ∧
      (∀ declared name id, (l.styles.resolve declared name).1 = some id →
        (l.run (.resolve declared name :: later)).styles.id? name = some id) ∧
      ∀ c d g, c.definition? = some d → l.grammar? c = some g →
        List.Forall₂ (d.StyledAs (l.run (c :: later)).styles) d.rules g.rules := by
  intro l
  have hstep : l.styles.InStep := inStep_run StyleTable.inStep_empty calls
  refine ⟨hstep.nodup, fun id => StyleTable.name?_isSome_iff, fun id name => hstep name id, ?_, ?_, ?_, ?_⟩
  · intro id name hname
    exact StyleTable.name?_of_prefix (keptBy_run l later).names hname
  · intro name
    have hname : (l.call (.intern name)).styles.name? (l.styles.intern name).1 = some name :=
      StyleTable.name?_intern hstep name
    exact id?_run_cons hstep hname later
  · intro declared name id hid
    exact id?_run_resolve hstep hid later
  · intro c d g hd hg
    exact styledAs_run hstep hd hg later

/-- three rules, of which one has a style that is declared, one a style that is not, and one none -/
def threeRules : GrammarDefinition where
  name := some "g"
  styles := ["number", "comment"]
  rules := [{ name := "a", regex := some ['a'], style := some "comment" },
    { name := "b", regex := some ['b'], style := some "string" }, { name := "c", regex := some ['c'] }]

/-- the grammar is compiled after a load that failed and left a style behind, and then replaced by one with other
styles; the numbers of its rules are still those of the styles written -/
theorem style_ids_stable_reloaded :
    let l := ({} : Library).run [.insert patternless]
    let later := l.run [.insert threeRules, .intern "string", .insert { threeRules with styles := ["operator"] }]
    later.styles.names = ["comment", "number", "string", "operator"] ∧
      ∃ g, l.grammar? (.insert threeRules) = some g ∧ g.rules.map (·.style) = [1, 0, 0] ∧
        List.Forall₂ (threeRules.StyledAs later.styles) threeRules.rules g.rules := by
  intro l later
  refine ⟨by decide, _, rfl, by decide, ?_⟩
  exact (style_ids_stable [.insert patternless] _).2.2.2.2.2.2 (.insert threeRules) threeRules _ rfl rfl

end Library

end Linewise
