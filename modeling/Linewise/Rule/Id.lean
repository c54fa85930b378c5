/-
Rule ids and masks of them: one bit of a 64-bit word for each rule of a grammar.

`RuleId.none` is the zero word and stands for "no rule". A grammar numbers its rules by single bits, so it has at most
`RuleId.capacity` of them.
-/
namespace Linewise

/-- id of a rule; a rule of a grammar has exactly one bit set -/
structure RuleId where
  bits : UInt64
  deriving DecidableEq, Repr, Inhabited

namespace RuleId

/-- no rule -/
def none : RuleId := ⟨0⟩

/-- how many ids with a single bit there are -/
def capacity : Nat := 64

/-- whether the id stands for no rule -/
def isNone (id : RuleId) : Bool := id.bits == 0

/-- the id with bit `index` set -/
def ofIndex (index : Nat) : RuleId := ⟨1 <<< index.toUInt64⟩

/-- the id with bit `index` set, if there is such a bit -/
def ofIndex? (index : Nat) : Option RuleId := if index < capacity then some (ofIndex index) else .none

/-- the bit that is set, if there is exactly one -/
def index? (id : RuleId) : Option Nat :=
  (List.range capacity).find? fun index => ofIndex index == id

/-- whether exactly one bit is set -/
def isSingle (id : RuleId) : Bool := id.index?.isSome

/-- the word in hexadecimal -/
def hex (id : RuleId) : String := "0x" ++ String.ofList (Nat.toDigits 16 id.bits.toNat)

theorem isNone_iff {id : RuleId} : id.isNone = true ↔ id = none := by
  rw [isNone, beq_iff_eq]
  exact ⟨fun h => congrArg mk h, fun h => congrArg bits h⟩

end RuleId

/-- a set of rules, as the union of their bits -/
structure RuleMask where
  bits : UInt64
  deriving DecidableEq, Repr, Inhabited

namespace RuleMask

/-- no rules -/
def empty : RuleMask := ⟨0⟩

/-- add a rule -/
def insert (mask : RuleMask) (id : RuleId) : RuleMask := ⟨mask.bits ||| id.bits⟩

/-- take a rule out -/
def erase (mask : RuleMask) (id : RuleId) : RuleMask := ⟨mask.bits &&& ~~~id.bits⟩

/-- whether every bit of the id is in the mask; `RuleId.none` never is -/
def contains (mask : RuleMask) (id : RuleId) : Bool := !id.isNone && mask.bits &&& id.bits == id.bits

/-- whether no rule is in the mask -/
def isEmpty (mask : RuleMask) : Bool := mask.bits == 0

end RuleMask

end Linewise
