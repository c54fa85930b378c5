/-
The range open after the lines hidden behind a line.

Hidden lines are highlighted again only if the range open before them differs from the one noted in the snapshot.
-/
import Linewise.Highlight
import Linewise.Line.Snapshot

namespace Linewise

namespace Grammar

/-- the range open after lines, given the one open before them -/
def handOn (g : Grammar) (incoming : RuleId) (texts : List Text) : RuleId :=
  texts.foldl (fun id text => (g.analyze text id).outgoing) incoming

/-- notices about ranges that are none of the grammar, line by line -/
def handOnNotices (g : Grammar) : RuleId → List Text → List Notice
  | _, [] => []
  | incoming, text :: texts => g.staleNotices incoming ++ g.handOnNotices (g.analyze text incoming).outgoing texts

end Grammar

namespace Snapshot

/-- whether the snapshot notes what is open after its lines, if `incoming` is open before them -/
def knows (s : Snapshot) (incoming : RuleId) : Bool := s.carried.any fun carried => carried.incoming == incoming

/-- the range open after the hidden lines -/
def handOn (g : Grammar) (s : Snapshot) (incoming : RuleId) : RuleId :=
  match s.carried with
  | some carried => if carried.incoming = incoming then carried.outgoing else g.handOn incoming s.hiddenTexts
  | none => g.handOn incoming s.hiddenTexts

/-- note the range open after the hidden lines -/
def carry (g : Grammar) (s : Snapshot) (incoming : RuleId) : Snapshot :=
  { s with carried := some ⟨incoming, s.handOn g incoming⟩ }

/-- notices of highlighting the hidden lines again -/
def carryNotices (g : Grammar) (s : Snapshot) (incoming : RuleId) : List Notice :=
  if s.knows incoming then [] else g.handOnNotices incoming s.hiddenTexts

end Snapshot

end Linewise
