/-
Line ids: a line keeps its id while lines around it come and go.
-/
namespace Linewise

/-- id of a line of a document -/
structure LineId where
  index : Nat
  deriving DecidableEq, Repr, Inhabited

/-- the id as messages show it -/
def LineId.label (id : LineId) : String := s!"LineId({id.index})"

end Linewise
