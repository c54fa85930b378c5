/-
Highlighting a line.

The range open when the line begins may own the whole line; otherwise every rule without a parent is looked for, and
overlaps are resolved. A match is searched for the children of its rule in turn, at most as deep as the grammar has
rules: a chain of parents holds no rule twice.
-/
import Linewise.Grammar.Basic
import Linewise.Region.Overlap
import Linewise.Rule.Occurrence

namespace Linewise

open Regex (Hit)

namespace Grammar

/-- the region of each match with those of the rules nested in it, at most `depth` levels deep; `base` is the place of
the searched text in the line -/
def regions (g : Grammar) : Nat → Rule → Nat → List Hit → List Region
  | depth, rule, base, hits =>
    hits.flatMap fun hit =>
      if hit.isEmpty then []
      else
        let position := base + hit.start.offset
        let inner := match depth with
          | 0 => []
          | depth + 1 => (g.children rule.id).flatMap fun child =>
            g.regions depth child position (child.occurrences hit.text).hits
        Region.ofRule rule position (hit.stop.offset - hit.start.offset) :: inner

/-- the regions of the matches of a rule in a line, nested ones included -/
def lineRegions (g : Grammar) (rule : Rule) (found : Occurrences) : List Region :=
  g.regions g.rules.length rule 0 found.hits

/-- the rule of a range that may be open when a line begins -/
def carried? (g : Grammar) (id : RuleId) : Option Rule :=
  (g.rule? id).filter fun rule => rule.spansLines && rule.isTopLevel && rule.isValid

/-- highlight a line in which no range is open at the beginning, or only up to the end of the regions `before` -/
def scan (g : Grammar) (text : Text) (incoming : RuleId) (before : List Region) : RegionSet :=
  let found := g.topLevel.map fun rule => (rule, rule.occurrences text)
  let unclosed := (found.filter fun (_, o) => o.isOpen).foldl (fun mask (rule, _) => mask.insert rule.id) RuleMask.empty
  let set := (RegionSet.ofList (before ++ found.flatMap fun (rule, o) => g.lineRegions rule o)).removeOverlaps
  let last := set.regions.find? fun r => unclosed.contains r.rule && r.stop == Text.width text
  { set with incoming, outgoing := (last.map (·.rule)).getD .none }

/-- highlight a line, given the range that is open when it begins -/
def analyze (g : Grammar) (text : Text) (incoming : RuleId) : RegionSet :=
  match g.carried? incoming with
  | none => g.scan text incoming []
  | some rule =>
    let found := rule.resumed text
    let regions := g.lineRegions rule found
    if found.isOpen then { (RegionSet.ofList regions).removeOverlaps with incoming, outgoing := incoming }
    else g.scan text incoming regions

/-- the notice that the range open when a line begins is none of the grammar -/
def staleNotices (g : Grammar) (incoming : RuleId) : List Notice :=
  if !incoming.isNone && (g.carried? incoming).isNone then [.staleRange incoming] else []

end Grammar

end Linewise
