/-
The analysis of a line comes to an end.

Looking for a rule in a text is followed by looking for its children in each of its matches, and a child may match all of
its parent's match, so the text need not get shorter. Here the analysis is given by rules of inference, with no bound on its
depth (`Yields`, `Analyzes`): an analysis that never ended would have no derivation. Each derivation keeps a log of the rules
looked for, each with those in whose matches it is looked for.
- The log holds only chains of children that begin at a rule without a parent (`Yields.descents`), on which no rule is twice;
  rules that are their own ancestors are on no chain.
- So there are only so many levels left below a rule, and on them the induction runs (`Level.recordsTo`).

Main statement: `analyze_terminates`.
-/
import Linewise.Proofs.Highlighting.Found
import Linewise.Proofs.Rule.Rounds

namespace Linewise

open Regex

namespace Grammar

variable {g : Grammar} {rule : Rule} {rules : List Rule} {depth n : Nat} {text : Text} {incoming : RuleId}

/-! ## The search -/

/-- what a search comes to: regions, the rules left open at the end of the text, and a log of the rules looked for, each with
those in whose matches it is looked for -/
structure Outcome where
  regions : List Region := []
  unclosed : List RuleId := []
  visited : List (List Rule) := []

/-- what there is to do, in matches of the rules `above`: record matches of a rule, or look for rules in a text -/
inductive Task where
  | record (above : List Rule) (rule : Rule) (base : Nat) (hits : List Hit)
  | search (above : List Rule) (rules : List Rule) (base : Nat) (text : Text)

/-- how it is done: a match is recorded and its text searched for the children of its rule; a rule is looked for and its
matches are recorded -/
inductive Yields (g : Grammar) : Task → Outcome → Prop
  | recorded {above : List Rule} {rule : Rule} {base : Nat} : Yields g (.record above rule base []) {}
  | skip {above : List Rule} {rule : Rule} {base : Nat} {hit : Hit} {hits : List Hit} {rest : Outcome} :
      hit.isEmpty = true → Yields g (.record above rule base hits) rest → Yields g (.record above rule base (hit :: hits)) rest
  | record {above : List Rule} {rule : Rule} {base : Nat} {hit : Hit} {hits : List Hit} {inner rest : Outcome} :
      hit.isEmpty = false →
      Yields g (.search (rule :: above) (g.children rule.id) (base + hit.start.offset) hit.text) inner →
      Yields g (.record above rule base hits) rest →
      Yields g (.record above rule base (hit :: hits))
        ⟨.ofMatch rule base hit :: (inner.regions ++ rest.regions), [], inner.visited ++ rest.visited⟩
  | searched {above : List Rule} {base : Nat} {text : Text} : Yields g (.search above [] base text) {}
  | search {above rules : List Rule} {rule : Rule} {base : Nat} {text : Text} {found : Occurrences} {first rest : Outcome} :
      rule.Looks text found → Yields g (.record above rule base found.hits) first →
      Yields g (.search above rules base text) rest →
      Yields g (.search above (rule :: rules) base text)
        ⟨first.regions ++ rest.regions, if found.isOpen then rule.id :: rest.unclosed else rest.unclosed,
          (rule :: above) :: (first.visited ++ rest.visited)⟩

/-- a task has one outcome -/
theorem Yields.unique {task : Task} {out out' : Outcome} (h : g.Yields task out) (h' : g.Yields task out') : out = out' := by
  induction h generalizing out' with
  | recorded => cases h' with
    | recorded => rfl
  | skip hempty _ ih => cases h' with
    | skip _ hrest => exact ih hrest
    | record hne _ _ => simp [hempty] at hne
  | record hne _ _ ihInner ihRest => cases h' with
    | skip hempty _ => simp [hne] at hempty
    | record _ hinner hrest => rw [ihInner hinner, ihRest hrest]
  | searched => cases h' with
    | searched => rfl
  | search hlooks _ _ ihFirst ihRest => cases h' with
    | search hlooks' hfirst hrest =>
      obtain rfl := (Rule.looks_iff.1 hlooks').trans (Rule.looks_iff.1 hlooks).symm
      rw [ihFirst hfirst, ihRest hrest]

/-- every rule that a task is about is on a chain with those above -/
def Task.Descends (g : Grammar) : Task → Prop
  | .record above rule _ _ => g.Descent (rule :: above)
  | .search above rules _ _ => ∀ rule ∈ rules, g.Descent (rule :: above)

/-- **The search descends along chains of children only.** -/
theorem Yields.descents {task : Task} {out : Outcome} (h : g.Yields task out) (htask : task.Descends g) :
    ∀ chain ∈ out.visited, g.Descent chain := by
  induction h with
  | recorded | searched => exact fun _ hchain => absurd hchain List.not_mem_nil
  | skip _ _ ih => exact ih htask
  | record _ _ _ ihInner ihRest =>
    exact List.forall_mem_append.2 ⟨ihInner fun child hchild => Descent.child htask hchild, ihRest htask⟩
  | search _ _ _ ihFirst ihRest =>
    obtain ⟨hrule, hrules⟩ := List.forall_mem_cons.1 htask
    exact List.forall_mem_cons.2 ⟨hrule, List.forall_mem_append.2 ⟨ihFirst hrule, ihRest hrules⟩⟩

/-- recording matches of a rule ends with the regions that are at most so many levels deep, whatever is above -/
def RecordsTo (g : Grammar) (depth : Nat) (rule : Rule) : Prop :=
  ∀ above base hits, ∃ out, g.Yields (.record above rule base hits) out ∧ out.regions = g.regions depth rule base hits

theorem exists_yields_search (h : ∀ rule ∈ rules, g.RecordsTo depth rule) (above : List Rule) (base : Nat) (text : Text) :
    ∃ out, g.Yields (.search above rules base text) out ∧
      out.regions = (rules.flatMap fun rule => g.regions depth rule base (rule.occurrences text).hits) ∧
      out.unclosed = (rules.filter fun rule => (rule.occurrences text).isOpen).map (·.id) := by
  induction rules with
  | nil => exact ⟨{}, .searched, rfl, rfl⟩
  | cons rule rules ih =>
    obtain ⟨hrule, hrules⟩ := List.forall_mem_cons.1 h
    obtain ⟨first, hfirst, hregions⟩ := hrule above base (rule.occurrences text).hits
    obtain ⟨rest, hrest, hregions', hunclosed⟩ := ih hrules
    refine ⟨_, .search (Rule.looks_iff.2 rfl) hfirst hrest, ?_, ?_⟩
    · rw [hregions, hregions', List.flatMap_cons]
    · rw [List.filter_cons, hunclosed]
      split_ifs <;> rfl

/-- **The search comes to an end.** The induction is on the levels that are left below a rule: a child has one less, and the
last has no children. -/
theorem Level.recordsTo (hg : g.Built) (h : g.Level rule n) (hdepth : n + depth = g.rules.length) : g.RecordsTo depth rule := by
  induction depth generalizing rule n with
  | zero => exact absurd (h.lt_length hg) (by omega)
  | succ depth ih =>
    intro above base hits
    induction hits with
    | nil => exact ⟨{}, .recorded, rfl⟩
    | cons hit hits ihHits =>
      obtain ⟨rest, hrest, hregions⟩ := ihHits
      cases hempty : hit.isEmpty with
      | true =>
        refine ⟨rest, .skip hempty hrest, ?_⟩
        rw [hregions, regions, regions, List.flatMap_cons, if_pos hempty, List.nil_append]
      | false =>
        obtain ⟨inner, hinner, hregions', -⟩ := exists_yields_search
          (fun child hchild => ih (.child h hchild) (by omega)) (rule :: above) (base + hit.start.offset) hit.text
        refine ⟨_, .record hempty hinner hrest, ?_⟩
        rw [hregions, hregions', regions, regions, List.flatMap_cons, if_neg (by simp [hempty])]
        rfl

theorem recordsTo_of_topLevel (hg : g.Built) (h : rule ∈ g.topLevel) : g.RecordsTo g.rules.length rule :=
  (Level.top h).recordsTo hg (Nat.zero_add _)

/-! ## The analysis -/

/-- the regions of a line once all matches are known, and the range handed on -/
def settle (text : Text) (incoming : RuleId) (before : List Region) (out : Outcome) : RegionSet :=
  let unclosed := out.unclosed.foldl RuleMask.insert RuleMask.empty
  let set := (RegionSet.ofList (before ++ out.regions)).removeOverlaps
  let last := set.regions.find? fun r => unclosed.contains r.rule && r.stop == Text.width text
  { set with incoming, outgoing := (last.map (·.rule)).getD .none }

theorem scan_eq_settle {out : Outcome} (hregions : out.regions = g.scanned text)
    (hunclosed : out.unclosed = (g.topLevel.filter fun rule => (rule.occurrences text).isOpen).map (·.id))
    (incoming : RuleId) (before : List Region) : g.scan text incoming before = settle text incoming before out := by
  rw [scan, settle, hregions, hunclosed, List.foldl_map, scanned]
  simp only [List.filter_map, List.foldl_map, List.flatMap_map]
  rfl

/-- the analysis of a line: no range is open when it begins, or one that stays open, or one that ends -/
inductive Analyzes (g : Grammar) (text : Text) (incoming : RuleId) : RegionSet → List (List Rule) → Prop
  | fresh {out : Outcome} : g.carried? incoming = none → g.Yields (.search [] g.topLevel 0 text) out →
      Analyzes g text incoming (settle text incoming [] out) out.visited
  | stays {rule : Rule} {out : Outcome} : g.carried? incoming = some rule → (rule.resumed text).isOpen = true →
      g.Yields (.record [] rule 0 (rule.resumed text).hits) out →
      Analyzes g text incoming { (RegionSet.ofList out.regions).removeOverlaps with incoming, outgoing := incoming }
        ([rule] :: out.visited)
  | ends {rule : Rule} {before out : Outcome} : g.carried? incoming = some rule → (rule.resumed text).isOpen = false →
      g.Yields (.record [] rule 0 (rule.resumed text).hits) before → g.Yields (.search [] g.topLevel 0 text) out →
      Analyzes g text incoming (settle text incoming before.regions out) ([rule] :: (before.visited ++ out.visited))

theorem Analyzes.unique {set set' : RegionSet} {visited visited' : List (List Rule)}
    (h : g.Analyzes text incoming set visited) (h' : g.Analyzes text incoming set' visited') :
    set = set' ∧ visited = visited' := by
  cases h with
  | fresh hcarried hout =>
    cases h' with
    | fresh _ hout' => rw [hout.unique hout']; exact ⟨rfl, rfl⟩
    | stays hcarried' => cases hcarried.symm.trans hcarried'
    | ends hcarried' => cases hcarried.symm.trans hcarried'
  | stays hcarried hopen hout =>
    cases h' with
    | fresh hcarried' => cases hcarried.symm.trans hcarried'
    | stays hcarried' _ hout' =>
      cases hcarried.symm.trans hcarried'
      rw [hout.unique hout']
      exact ⟨rfl, rfl⟩
    | ends hcarried' hclosed =>
      cases hcarried.symm.trans hcarried'
      cases hopen.symm.trans hclosed
  | ends hcarried hclosed hbefore hout =>
    cases h' with
    | fresh hcarried' => cases hcarried.symm.trans hcarried'
    | stays hcarried' hopen =>
      cases hcarried.symm.trans hcarried'
      cases hclosed.symm.trans hopen
    | ends hcarried' _ hbefore' hout' =>
      cases hcarried.symm.trans hcarried'
      rw [hbefore.unique hbefore', hout.unique hout']
      exact ⟨rfl, rfl⟩

theorem Analyzes.descents {set : RegionSet} {visited : List (List Rule)} (h : g.Analyzes text incoming set visited) :
    ∀ chain ∈ visited, g.Descent chain := by
  have htop : (Task.search [] g.topLevel 0 text).Descends g := fun rule hrule => .top hrule
  cases h with
  | fresh _ hout => exact hout.descents htop
  | stays hcarried _ hout =>
    have hrule := Descent.top (carried?_some hcarried).1
    exact List.forall_mem_cons.2 ⟨hrule, hout.descents hrule⟩
  | ends hcarried _ hbefore hout =>
    have hrule := Descent.top (carried?_some hcarried).1
    exact List.forall_mem_cons.2 ⟨hrule, List.forall_mem_append.2 ⟨hbefore.descents hrule, hout.descents htop⟩⟩

theorem exists_analyzes (hg : g.Built) (text : Text) (incoming : RuleId) :
    ∃ visited, g.Analyzes text incoming (g.analyze text incoming) visited := by
  obtain ⟨out, hout, hregions, hunclosed⟩ :=
    exists_yields_search (fun rule hrule => recordsTo_of_topLevel hg hrule) [] 0 text
  have hscan := scan_eq_settle hregions hunclosed incoming
  rw [analyze]
  cases hcarried : g.carried? incoming with
  | none =>
    simp only [hscan]
    exact ⟨_, .fresh hcarried hout⟩
  | some rule =>
    obtain ⟨before, hbefore, hregions'⟩ :=
      recordsTo_of_topLevel hg (carried?_some hcarried).1 [] 0 (rule.resumed text).hits
    simp only [lineRegions, ← hregions', hscan]
    cases hopen : (rule.resumed text).isOpen with
    | true => exact ⟨_, .stays hcarried hopen hbefore⟩
    | false => exact ⟨_, .ends hcarried hopen hbefore hout⟩

/-- **The analysis of a line comes to an end**, for every grammar that was built, whatever its parents are, every text and
every range that may be open. The analysis without bounds has a result, and only one, the one that `analyze` gives. It looks
for rules only along chains of children that begin at a rule without a parent; no rule is twice on a chain, and there are at
most as many rules on it as the grammar has. The loops that look for a match that is not empty, and that go from range to
range, come to an end from every place and whatever their patterns match, with what `findNonempty?` and `ranges` give; the
places where their rounds begin lie strictly one behind the other. -/
theorem analyze_terminates {name : String} {given : List Rule} {delimiters : List Delimiter} {indents : List IndentPattern}
    (h : build name given delimiters indents = .ok g) (text : Text) (incoming : RuleId) :
    (∃ visited, (∀ set chains, g.Analyzes text incoming set chains ↔ set = g.analyze text incoming ∧ chains = visited) ∧
      ∀ chain ∈ visited, g.Descent chain ∧ chain.Nodup ∧ chain.length ≤ g.rules.length) ∧
    (∀ (e : Expr) c, (∃ tried answer, e.Tries c tried answer) ∧
      ∀ tried answer, e.Tries c tried answer → answer = e.findNonempty? c ∧ Cursor.Ascending tried) ∧
    ∀ (opening closing : Expr) c, (∃ rounds found, Occurrences.Rounds opening closing c rounds found) ∧
      ∀ rounds found, Occurrences.Rounds opening closing c rounds found →
        found = Occurrences.ranges opening closing (c.rest.length + 1) c ∧ Cursor.Ascending rounds := by
  have hg : g.Built := built_of_build h
  obtain ⟨visited, hanalyzes⟩ := exists_analyzes hg text incoming
  refine ⟨⟨visited, fun set chains => ⟨?_, ?_⟩, fun chain hchain => ?_⟩, fun e c => ⟨e.exists_tries c, ?_⟩,
    fun opening closing c => ⟨Occurrences.exists_rounds opening closing c, ?_⟩⟩
  · intro hother
    exact hother.unique hanalyzes
  · rintro ⟨rfl, rfl⟩
    exact hanalyzes
  · have hdescent := hanalyzes.descents chain hchain
    exact ⟨hdescent, hdescent.nodup hg, hdescent.length_le hg⟩
  · intro tried answer htries
    exact ⟨htries.answer_eq, htries.ascending⟩
  · intro rounds found hrounds
    exact ⟨hrounds.found_eq (Nat.lt_succ_self _), hrounds.ascending⟩

/-- a range both patterns of which match the empty text, a word in it, and two words that are the parents of each other -/
def knotRules : List Rule :=
  [{ Rule.range ⟨1⟩ "run" "x*".toList "y*".toList .span 1 with children := [⟨2⟩] },
    { Rule.keyword ⟨2⟩ "letter" "x".toList .none 2 with parent := ⟨1⟩ },
    { Rule.keyword ⟨4⟩ "first" "x".toList .none 3 with parent := ⟨8⟩, children := [⟨8⟩] },
    { Rule.keyword ⟨8⟩ "second" "x".toList .none 4 with parent := ⟨4⟩, children := [⟨4⟩] }]

/-- the grammar of these rules; all parents stay -/
def knot : Grammar where
  name := "knot"
  rules := knotRules
  delimiters := []
  indents := []

/-- the range is found between empty matches, the word in it as long as it, and the other words nowhere -/
theorem analyze_terminates_knot :
    build "knot" knotRules [] [] = .ok knot ∧
    (knot.analyze "zxz".toList .none).regions.map (fun r => (r.position, r.length, r.rule.bits)) = [(1, 1, 1), (1, 1, 2)] ∧
    ∃ visited, knot.Analyzes "zxz".toList .none (knot.analyze "zxz".toList .none) visited ∧
      ∀ chain ∈ visited, chain.Nodup ∧ chain.length ≤ 4 := by
  have hbuild : build "knot" knotRules [] [] = .ok knot := by decide +kernel
  obtain ⟨⟨visited, hiff, hchains⟩, -, -⟩ := analyze_terminates hbuild "zxz".toList .none
  refine ⟨hbuild, by decide +kernel, visited, (hiff _ _).2 ⟨rfl, rfl⟩, fun chain hchain => ?_⟩
  obtain ⟨-, hnodup, hlength⟩ := hchains chain hchain
  exact ⟨hnodup, hlength⟩

end Grammar

end Linewise
