/-
Folding by counters is matching of tokens.

A layout is built from two counters a line, and each line closes blocks before it opens any. Here the tokens themselves
are matched, one by one, with a stack of those that are open (`Matcher`), and the outcome is the same: the counters of a
line say exactly what its tokens do to the stack (`Matcher.line_eq`), for a token closed on its own line never shows, and
a closing token that meets an open block of the other context stops all closing tokens after it on that line but those
that are matched there.

Main statement: `build_eq_spans`.
-/
import Linewise.Proofs.Fold.Sweep

namespace Linewise

/-- a token of one kind of delimiter -/
inductive Token where
  | opening
  | closing
  deriving DecidableEq, Repr

/-- count a token -/
def Pair.count {N : Type} [OfNat N 0] [OfNat N 1] [Add N] [Sub N] [LT N] [DecidableLT N] (p : Pair N) : Token → Pair N
  | .opening => p.addOpening
  | .closing => p.addClosing

/-- the counters of tokens, one after the other -/
def Pair.ofTokens (tokens : List Token) : Pair := tokens.foldl count {}

/-- a line as its tokens: the context it is in, and the tokens in it -/
structure TokenLine where
  ignored : Bool
  tokens : List Token
  deriving DecidableEq, Repr

/-- a line as folding sees it has the counters of these tokens in its own context, and hides nothing -/
structure TokenLine.Counted (t : TokenLine) (line : FoldLine) : Prop where
  ignored : line.ignored = t.ignored
  pair : line.tally.pair line.ignored = Pair.ofTokens t.tokens
  collapsed : line.collapsed = false

/-- the tokens that are open, innermost first, each with the row and the context of its line, and the rows of those that
were matched -/
structure Matcher where
  stack : List (Nat × Bool) := []
  pairs : List (Nat × Nat) := []
  deriving DecidableEq, Repr

namespace Matcher

/-- read a token: an opening one is put on the stack; a closing one takes off the innermost one that is open if that is of
the same context, and is dropped otherwise. Tokens matched on one line are not reported. -/
def read (row : Nat) (ignored : Bool) (s : Matcher) : Token → Matcher
  | .opening => { s with stack := (row, ignored) :: s.stack }
  | .closing =>
    match s.stack with
    | [] => s
    | (start, context) :: rest =>
      if context = ignored then ⟨rest, if start = row then s.pairs else (start, row) :: s.pairs⟩ else s

/-- read the tokens of a line -/
def line (row : Nat) (s : Matcher) (t : TokenLine) : Matcher := t.tokens.foldl (read row t.ignored) s

/-- read lines from a row on -/
def lines : Nat → Matcher → List TokenLine → Matcher
  | _, s, [] => s
  | row, s, t :: ts => lines (row + 1) (s.line row t) ts

/-- the rows of all pairs; what is open in the end runs to the last row -/
def spans (ts : List TokenLine) : List (Nat × Nat) :=
  (lines 0 {} ts).pairs ++ (lines 0 {} ts).stack.map fun token => (token.1, ts.length - 1)

/-! ## The tokens of a line -/

/-- the state once a line with these counters is read -/
def after (row : Nat) (ignored : Bool) (s : Matcher) (p : Pair) : Matcher where
  stack := List.replicate p.opened (row, ignored) ++ s.stack.drop (min p.closed (reach ignored s.stack))
  pairs := ((s.stack.take (min p.closed (reach ignored s.stack))).map fun token => (token.1, row)).reverse ++ s.pairs

variable {row : Nat} {ignored : Bool} {s : Matcher}

/-- one more token, read or counted -/
theorem read_after (hrow : ∀ token ∈ s.stack, token.1 ≠ row) (p : Pair) (token : Token) :
    (s.after row ignored p).read row ignored token = s.after row ignored (p.count token) := by
  obtain ⟨opened, closed⟩ := p
  cases token with
  | opening => simp [read, after, Pair.count, Pair.addOpening, List.replicate_succ]
  | closing =>
    cases opened with
    | succ opened =>
      -- the innermost token that is open stands on this line
      simp [read, after, Pair.count, Pair.addClosing, List.replicate_succ]
    | zero =>
      have hcount : Pair.count ⟨0, closed⟩ .closing = ⟨0, closed + 1⟩ := rfl
      rw [hcount]
      rcases Nat.lt_or_ge closed (reach ignored s.stack) with hlt | hge
      · -- it stands on a line above, and is of the same context
        obtain ⟨⟨start, context⟩, hget, rfl⟩ := getElem?_of_lt_reach hlt
        obtain ⟨hlen, hget⟩ := List.getElem?_eq_some_iff.1 hget
        have hne : start ≠ row := hrow (start, context) (hget ▸ List.getElem_mem hlen)
        simp only [after, Nat.min_eq_left hlt.le, Nat.min_eq_left hlt, List.replicate_zero, List.nil_append,
          List.drop_eq_getElem_cons hlen, hget, read, if_true, if_neg hne]
        rw [List.take_succ_eq_append_getElem hlen, hget]
        simp
      · -- there is none, or it is of the other context
        have hstop : (s.after row ignored ⟨0, closed⟩).read row ignored .closing = s.after row ignored ⟨0, closed⟩ := by
          simp only [after, Nat.min_eq_right hge, List.replicate_zero, List.nil_append, read]
          split
          · rfl
          · rename_i start context rest hstack
            have hget : s.stack[reach ignored s.stack]? = some (start, context) := by
              rw [← List.head?_drop, hstack]
              rfl
            rw [if_neg (ne_of_getElem?_reach hget)]
        rw [hstop]
        simp only [after, Nat.min_eq_right hge, Nat.min_eq_right (Nat.le_succ_of_le hge)]

theorem foldl_read (hrow : ∀ token ∈ s.stack, token.1 ≠ row) (p : Pair) (tokens : List Token) :
    tokens.foldl (read row ignored) (s.after row ignored p) = s.after row ignored (tokens.foldl Pair.count p) := by
  induction tokens generalizing p with
  | nil => rfl
  | cons token tokens ih => rw [List.foldl_cons, List.foldl_cons, read_after hrow, ih]

/-- **The counters of a line say what its tokens do.** -/
theorem line_eq (hrow : ∀ token ∈ s.stack, token.1 ≠ row) (t : TokenLine) :
    s.line row t = s.after row t.ignored (Pair.ofTokens t.tokens) := by
  have hstart : s.after row t.ignored {} = s := by simp [after]
  rw [line, Pair.ofTokens, ← foldl_read hrow, hstart]

/-! ## Lines -/

/-- the matcher as a sweep -/
def sweep (s : Matcher) : Sweep Nat := ⟨s.stack, s.pairs⟩

/-- a line as the mark of its counters -/
def mark (row : Nat) (t : TokenLine) : Mark Nat := ⟨row, Pair.ofTokens t.tokens, t.ignored, false⟩

/-- lines as marks, from a row on -/
def marksFrom : Nat → List TokenLine → List (Mark Nat)
  | _, [] => []
  | row, t :: ts => mark row t :: marksFrom (row + 1) ts

theorem sweep_line (hrow : ∀ token ∈ s.stack, token.1 ≠ row) (t : TokenLine) :
    (s.line row t).sweep = s.sweep.step (mark row t) := by
  rw [line_eq hrow]
  simp only [sweep, after, Sweep.step, Sweep.closes, mark, Mark.alone, Sweep.mk.injEq, true_and]
  rw [← Multiset.coe_add, Multiset.coe_reverse, add_comm]
  simp

theorem row_lt_of_line (hrow : ∀ token ∈ s.stack, token.1 < row) (t : TokenLine) :
    ∀ token ∈ (s.line row t).stack, token.1 < row + 1 := by
  rw [line_eq fun token htoken => Nat.ne_of_lt (hrow token htoken)]
  intro token htoken
  rcases List.mem_append.1 htoken with hnew | hold
  · rw [List.eq_of_mem_replicate hnew]
    exact Nat.lt_succ_self row
  · exact Nat.lt_succ_of_lt (hrow token (List.mem_of_mem_drop hold))

/-- reading lines is a sweep over the marks of their counters -/
theorem sweep_lines (hrow : ∀ token ∈ s.stack, token.1 < row) (ts : List TokenLine) :
    (lines row s ts).sweep = s.sweep.run (marksFrom row ts) := by
  induction ts generalizing row s with
  | nil => rfl
  | cons t ts ih =>
    rw [lines, ih (row_lt_of_line hrow t), sweep_line fun token htoken => Nat.ne_of_lt (hrow token htoken), marksFrom,
      Sweep.run_cons]

theorem map_marksFrom {ts : List TokenLine} {lines : List FoldLine} (h : List.Forall₂ TokenLine.Counted ts lines)
    (row : Nat) : (Linewise.marksFrom row lines).map (Mark.map Prod.snd) = marksFrom row ts := by
  induction h generalizing row with
  | nil => rfl
  | @cons t line ts lines hline _ ih =>
    obtain ⟨hignored, hpair, hcollapsed⟩ := hline
    rw [hignored] at hpair
    rw [Linewise.marksFrom, List.map_cons, ih, marksFrom]
    simp only [Mark.map, FoldLine.mark, mark, hpair, hignored, hcollapsed]

end Matcher

/-- **Folding by counters is matching of tokens.** For every list of lines, each in a context and with any tokens, none of
them collapsed: the rows between which the segments of the layout run, built from the counters of the lines, are as a
multiset those that matching the tokens one by one reports. -/
theorem build_eq_spans {ts : List TokenLine} {lines : List FoldLine} (h : List.Forall₂ TokenLine.Counted ts lines) :
    ((Layout.build lines).segments.map fun s => (s.start.row, s.stop.row) : Multiset (Nat × Nat)) =
      Matcher.spans ts := by
  have hsweep : (Layout.sweep lines).map Prod.snd = (Matcher.lines 0 {} ts).sweep := by
    rw [Layout.sweep, Sweep.map_run, Matcher.map_marksFrom h, Matcher.sweep_lines (by simp)]
    rfl
  rcases List.eq_nil_or_concat lines with rfl | ⟨front, last, rfl⟩
  · cases h
    rfl
  · have hlast : ts.length - 1 = front.length := by simp [h.length_eq]
    have hrows : ((Layout.build (front ++ [last])).segments.map fun s => (s.start.row, s.stop.row)) =
        ((Layout.build (front ++ [last])).segments.map Segment.ends).map (Prod.map Prod.snd Prod.snd) := by
      rw [List.map_map]
      rfl
    rw [List.concat_eq_append, hrows, ← Multiset.map_coe, Layout.ends_build, Sweep.stretches_map, ← List.concat_eq_append,
      hsweep, Matcher.spans, hlast]
    rfl

/-- five lines in both contexts: tokens of the one are not closed while one of the other is open -/
theorem build_eq_spans_contexts :
    let ts : List TokenLine := [⟨false, [.opening]⟩, ⟨true, [.closing, .opening]⟩, ⟨false, [.closing, .closing, .opening]⟩,
      ⟨true, [.closing]⟩, ⟨false, [.closing, .opening, .closing]⟩]
    let lines : List FoldLine := ts.zipIdx.map fun (t, row) =>
      ⟨⟨row⟩, 0, 0, Tally.modify {} t.ignored fun _ => Pair.ofTokens t.tokens, t.ignored, false, 0⟩
    List.Forall₂ TokenLine.Counted ts lines ∧ Matcher.spans ts = [(2, 4), (1, 4), (0, 4)] ∧
      ((Layout.build lines).segments.map fun s => (s.start.row, s.stop.row) : Multiset (Nat × Nat)) =
        Matcher.spans ts := by
  intro ts lines
  have hcounted : List.Forall₂ TokenLine.Counted ts lines := by
    refine .cons ?_ (.cons ?_ (.cons ?_ (.cons ?_ (.cons ?_ .nil)))) <;> exact ⟨rfl, rfl, rfl⟩
  exact ⟨hcounted, by decide, build_eq_spans hcounted⟩

end Linewise
