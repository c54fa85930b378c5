/-
Sets of characters, written with the operations of a bracket expression and decided by `CharSet.mem`.

Case-insensitive matching is an operation on sets: `folded s` holds every character of which some case variant is
in `s`.
-/
import Linewise.Text.Blank
import Linewise.Text.CaseFold
import Linewise.Text.Digits
import Linewise.Text.WordChars

namespace Linewise.Regex

/-- a set of characters -/
inductive CharSet where
  | empty
  | range (low high : Char)
  | word
  | decimal
  | blank
  | compl (s : CharSet)
  | union (s t : CharSet)
  | inter (s t : CharSet)
  | diff (s t : CharSet)
  | symmDiff (s t : CharSet)
  | folded (s : CharSet)
  deriving DecidableEq, Repr

namespace CharSet

/-- whether the set holds the character -/
def mem : CharSet → Char → Bool
  | empty, _ => false
  | range low high, c => low ≤ c && c ≤ high
  | word, c => Text.isWord c
  | decimal, c => Text.isDecimal c
  | blank, c => Text.isBlank c
  | compl s, c => !s.mem c
  | union s t, c => s.mem c || t.mem c
  | inter s t, c => s.mem c && t.mem c
  | diff s t, c => s.mem c && !t.mem c
  | symmDiff s t, c => s.mem c != t.mem c
  | folded s, c => s.mem c || (Text.caseVariants c).any s.mem

/-- the set of one character -/
def single (c : Char) : CharSet := range c c

theorem mem_single (c d : Char) : (single c).mem d = (c == d) := by
  by_cases h : c = d
  · subst h
    simp [single, mem]
  · have : ¬(c ≤ d ∧ d ≤ c) := fun ⟨hcd, hdc⟩ => h (Char.le_antisymm hcd hdc)
    simp only [single, mem, beq_eq_false_iff_ne.2 h]
    simpa using this

/-- the union of ranges -/
def ofRanges (ranges : List (Char × Char)) : CharSet :=
  ranges.foldr (fun (low, high) s => union (range low high) s) empty

/-- close under case variants if `ignoreCase` -/
def fold (ignoreCase : Bool) (s : CharSet) : CharSet :=
  if ignoreCase then folded s else s

/-- complement if `negated` -/
def negate (negated : Bool) (s : CharSet) : CharSet :=
  if negated then compl s else s

/-- the named sets of a bracket expression -/
def ofName? : String → Option CharSet
  | "alnum" => ofRanges [('0', '9'), ('A', 'Z'), ('a', 'z')]
  | "alpha" => ofRanges [('A', 'Z'), ('a', 'z')]
  | "ascii" => range '\x00' '\x7F'
  | "blank" => ofRanges [('\t', '\t'), (' ', ' ')]
  | "cntrl" => ofRanges [('\x00', '\x1F'), ('\x7F', '\x7F')]
  | "digit" => range '0' '9'
  | "graph" => range '!' '~'
  | "lower" => range 'a' 'z'
  | "print" => range ' ' '~'
  | "punct" => ofRanges [('!', '/'), (':', '@'), ('[', '\x60'), ('\x7B', '~')]
  | "space" => ofRanges [('\t', '\r'), (' ', ' ')]
  | "upper" => range 'A' 'Z'
  | "word" => ofRanges [('0', '9'), ('A', 'Z'), ('_', '_'), ('a', 'z')]
  | "xdigit" => ofRanges [('0', '9'), ('A', 'F'), ('a', 'f')]
  | _ => none

end CharSet

end Linewise.Regex
