/-
Hidden rows in words.

A program keeps the table in words of 64 bits. What it makes of collapsed rows is the table of natural numbers, in words
(`ofPushes_eq_words`), and says what that one says as long as nothing in it is too large for a word: the numbers of hidden
lines, which are largest behind the last collapsed row (`Fits`), and those of the rows that are asked for (`HasLine`). Then
no sum of the search wraps and no difference is of more than there is (`rowFrom?_words`), and rows and lines translate as
they do without a bound. Where hidden lines are too many for words, rows further down come out above others
(`logical_wraps`).

Main statement: `rows_translate`.
-/
import Linewise.Proofs.Fold.Translation

namespace Linewise

/-! ## Sums and differences that fit -/

section Fit

variable {a b : Nat}

theorem toNat_ofNat_of_fits (h : a < 2 ^ 64) : (UInt64.ofNat a).toNat = a := by
  rw [UInt64.toNat_ofNat', Nat.mod_eq_of_lt h]

theorem le_ofNat_iff (h : a < 2 ^ 64) (line : UInt64) : line ≤ .ofNat a ↔ line.toNat ≤ a := by
  rw [UInt64.le_iff_toNat_le, toNat_ofNat_of_fits h]

/-- the sum, unless it is too large for a word -/
def plus? (a b : UInt64) : Option UInt64 := if a.toNat + b.toNat < 2 ^ 64 then some (a + b) else none

/-- the difference, unless more is taken away than there is -/
def minus? (a b : UInt64) : Option UInt64 := if b ≤ a then some (a - b) else none

theorem plus?_ofNat (h : a + b < 2 ^ 64) : plus? (.ofNat a) (.ofNat b) = some (.ofNat (a + b)) := by
  rw [plus?, toNat_ofNat_of_fits (by omega), toNat_ofNat_of_fits (by omega), if_pos h, UInt64.ofNat_add]

theorem minus?_ofNat (ha : a < 2 ^ 64) (h : b ≤ a) : minus? (.ofNat a) (.ofNat b) = some (.ofNat (a - b)) := by
  have hle : UInt64.ofNat b ≤ .ofNat a := by
    rwa [le_ofNat_iff ha, toNat_ofNat_of_fits (by omega)]
  rw [minus?, if_pos hle, UInt64.ofNat_sub h]

end Fit

namespace HiddenRows

/-! ## The table in words -/

theorem total_words (h : HiddenRows) : h.words.total = .ofNat h.total := by
  rw [total, total, words, List.getLast?_map]
  cases h.entries.getLast? <;> rfl

/-- **What a row adds to the table in words is what it adds to the table**, in words. -/
theorem words_push (h : HiddenRows) (row hidden : Nat) :
    (h.push row hidden).words = h.words.push (.ofNat row) (.ofNat hidden) := by
  rw [push, push, total_words, ← UInt64.ofNat_add, words, words, List.map_append]
  rfl

/-- the natural numbers of the rows pushed and of what they hide -/
def exactPushes (pushes : List (UInt64 × UInt64)) : List (Nat × Nat) := pushes.map fun p => (p.1.toNat, p.2.toNat)

variable {pushes : List (UInt64 × UInt64)} {row line : UInt64}

theorem foldl_push_words (h : HiddenRows) (pushes : List (UInt64 × UInt64)) :
    pushes.foldl (fun h p => h.push p.1 p.2) h.words =
      ((exactPushes pushes).foldl (fun h p => h.push p.1 p.2) h).words := by
  induction pushes generalizing h with
  | nil => rfl
  | cons p pushes ih =>
    have hpush : h.words.push p.1 p.2 = (h.push p.1.toNat p.2.toNat).words := by
      rw [words_push, UInt64.ofNat_toNat, UInt64.ofNat_toNat]
    rw [List.foldl_cons, hpush, ih]
    rfl

theorem ofPushes_eq_words (pushes : List (UInt64 × UInt64)) : ofPushes pushes = (ofPushes (exactPushes pushes)).words :=
  foldl_push_words {} pushes

theorem Ascending.exact (h : Ascending pushes) : Ascending (exactPushes pushes) :=
  List.pairwise_map.2 (h.imp fun hlt => UInt64.lt_iff_toNat_lt.1 hlt)

/-! ## What fits -/

/-- the last line that is hidden has a number that fits into a word -/
def Fits (pushes : List (UInt64 × UInt64)) : Prop :=
  ∀ last ∈ (exactPushes pushes).getLast?, last.1 + ((exactPushes pushes).map (·.2)).sum < 2 ^ 64

/-- the line of a row has a number that fits into a word -/
def HasLine (pushes : List (UInt64 × UInt64)) (row : UInt64) : Prop :=
  row.toNat + hiddenAbove (exactPushes pushes) row.toNat < 2 ^ 64

section Bounds

variable {given : List (Nat × Nat)} {p : Nat × Nat} {before : Nat}

theorem Ascending.le_last {last : Nat × Nat} (h : Ascending given) (hlast : last ∈ given.getLast?) (hp : p ∈ given) :
    p.1 ≤ last.1 := by
  obtain ⟨front, rfl⟩ := List.getLast?_eq_some_iff.1 hlast
  rcases List.mem_append.1 hp with hfront | hsame
  · exact Nat.le_of_lt ((List.pairwise_append.1 h).2.2 p hfront last (List.mem_singleton_self last))
  · exact Nat.le_of_eq (congrArg Prod.fst (List.mem_singleton.1 hsame))

/-- a running total is of no more than all, and stands beside a row that was pushed -/
theorem totalsFrom_le (hentry : p ∈ totalsFrom before given) :
    p.2 ≤ before + (given.map (·.2)).sum ∧ ∃ q ∈ given, q.1 = p.1 := by
  induction given generalizing before with
  | nil => cases hentry
  | cons first given ih =>
    obtain ⟨row, hidden⟩ := first
    rw [List.map_cons, List.sum_cons]
    rcases List.mem_cons.1 hentry with rfl | hentry
    · exact ⟨by omega, _, List.mem_cons_self, rfl⟩
    · obtain ⟨htotal, q, hq, hrow⟩ := ih hentry
      exact ⟨by omega, q, List.mem_cons_of_mem _ hq, hrow⟩

theorem hiddenAbove_le_sum (given : List (Nat × Nat)) (row : Nat) : hiddenAbove given row ≤ (given.map (·.2)).sum := by
  induction given with
  | nil => exact Nat.le_refl 0
  | cons first given ih =>
    obtain ⟨top, hidden⟩ := first
    rw [hiddenAbove_cons, List.map_cons, List.sum_cons]
    split_ifs with hlt
    · omega
    · omega

end Bounds

/-- nothing in the table is too large, nor is a row together with what is hidden up to it -/
theorem Fits.entries_lt (hfits : Fits pushes) (h : Ascending pushes) :
    ∀ entry ∈ totalsFrom 0 (exactPushes pushes), entry.1 + entry.2 < 2 ^ 64 := by
  intro entry hentry
  obtain ⟨htotal, q, hq, hrow⟩ := totalsFrom_le hentry
  obtain ⟨last, hlast⟩ := Option.isSome_iff_exists.1 (List.getLast?_isSome.2 (List.ne_nil_of_mem hq))
  have hle := h.exact.le_last hlast hq
  have hlt := hfits last hlast
  omega

/-- the last line hidden by a collapsed row has a number that fits -/
theorem Fits.hidden_lt (hfits : Fits pushes) (h : Ascending pushes) {hidden : UInt64} (hp : (row, hidden) ∈ pushes) :
    row.toNat + hiddenAbove (exactPushes pushes) row.toNat + hidden.toNat < 2 ^ 64 := by
  have hexact : (row.toNat, hidden.toNat) ∈ exactPushes pushes := List.mem_map.2 ⟨_, hp, rfl⟩
  obtain ⟨last, hlast⟩ := Option.isSome_iff_exists.1 (List.getLast?_isSome.2 (List.ne_nil_of_mem hexact))
  have hle := h.exact.le_last hlast hexact
  have hlt := hfits last hlast
  have hsum := hiddenAbove_le_sum (exactPushes pushes) (row.toNat + 1)
  rw [hiddenAbove_succ_of_mem h.exact hexact] at hsum
  simp only at hle
  omega

/-! ## From rows to lines -/

theorem takeWhile_words {entries : List (Nat × Nat)} (hrows : ∀ entry ∈ entries, entry.1 < 2 ^ 64) (row : UInt64) :
    (entries.map fun entry => (UInt64.ofNat entry.1, UInt64.ofNat entry.2)).takeWhile (fun entry => entry.1 < row) =
      (entries.takeWhile fun entry => entry.1 < row.toNat).map fun entry => (.ofNat entry.1, .ofNat entry.2) := by
  induction entries with
  | nil => rfl
  | cons entry entries ih =>
    obtain ⟨hrow, hrows⟩ := List.forall_mem_cons.1 hrows
    have hiff : UInt64.ofNat entry.1 < row ↔ entry.1 < row.toNat := by
      rw [UInt64.lt_iff_toNat_lt, toNat_ofNat_of_fits hrow]
    rw [List.map_cons, List.takeWhile_cons, List.takeWhile_cons]
    by_cases hlt : entry.1 < row.toNat
    · rw [if_pos (decide_eq_true (hiff.2 hlt)), if_pos (decide_eq_true hlt), List.map_cons, ih hrows]
    · rw [if_neg (by simpa using mt hiff.1 hlt), if_neg (by simpa using hlt), List.map_nil]

theorem above_words {h : HiddenRows} (hrows : ∀ entry ∈ h.entries, entry.1 < 2 ^ 64) (row : UInt64) :
    h.words.above row = .ofNat (h.above row.toNat) := by
  have hentries : h.words.entries.takeWhile (fun entry => entry.1 < row) =
      (h.entries.takeWhile fun entry => entry.1 < row.toNat).map fun entry => (.ofNat entry.1, .ofNat entry.2) :=
    takeWhile_words hrows row
  rw [above, above, hentries, List.getLast?_map]
  cases (h.entries.takeWhile fun entry => entry.1 < row.toNat).getLast? <;> rfl

/-- **The line of a row in words is the line of the row**, if that fits. -/
theorem toNat_logical (h : Ascending pushes) (hfits : Fits pushes) (hline : HasLine pushes row) :
    ((ofPushes pushes).logical row).toNat = (ofPushes (exactPushes pushes)).logical row.toNat := by
  have hrows : ∀ entry ∈ (ofPushes (exactPushes pushes)).entries, entry.1 < 2 ^ 64 := by
    intro entry hentry
    rw [entries_ofPushes] at hentry
    exact Nat.lt_of_le_of_lt (Nat.le_add_right _ _) (hfits.entries_lt h entry hentry)
  have hsum : (ofPushes pushes).logical row = .ofNat ((ofPushes (exactPushes pushes)).logical row.toNat) := by
    rw [ofPushes_eq_words, logical, above_words hrows, logical, UInt64.ofNat_add, UInt64.ofNat_toNat]
  rw [hsum]
  apply toNat_ofNat_of_fits
  rw [logical_ofPushes h.exact]
  exact hline

theorem hasLine_iff (h : Ascending pushes) :
    HasLine pushes row ↔ (ofPushes (exactPushes pushes)).logical row.toNat < 2 ^ 64 := by
  rw [logical_ofPushes h.exact, HasLine]

/-! ## From lines to rows -/

/-- the search for a row that fails where a sum wraps or a difference is of more than there is -/
def rowFrom? (before : UInt64) : List (UInt64 × UInt64) → UInt64 → Option UInt64
  | [], line => minus? line before
  | (row, total) :: entries, line =>
    (plus? row before).bind fun start =>
      if line ≤ start then minus? line before
      else
        (minus? total before).bind fun here =>
          (plus? start here).bind fun stop => if line ≤ stop then some row else rowFrom? total entries line

theorem plus?_eq_some {a b sum : UInt64} (h : plus? a b = some sum) : sum = a + b := by
  unfold plus? at h
  split_ifs at h
  exact (Option.some.inj h).symm

theorem minus?_eq_some {a b rest : UInt64} (h : minus? a b = some rest) : rest = a - b := by
  unfold minus? at h
  split_ifs at h
  exact (Option.some.inj h).symm

/-- a search that does not fail finds what the search finds -/
theorem rowFrom_of_rowFrom? {before : UInt64} {entries : List (UInt64 × UInt64)}
    (h : rowFrom? before entries line = some row) : rowFrom before entries line = row := by
  induction entries generalizing before with
  | nil => exact (minus?_eq_some h).symm
  | cons entry entries ih =>
    obtain ⟨first, total⟩ := entry
    rw [rowFrom?] at h
    obtain ⟨start, hstart, h⟩ := Option.bind_eq_some_iff.1 h
    obtain rfl := plus?_eq_some hstart
    rw [rowFrom]
    by_cases hshown : line ≤ first + before
    · rw [if_pos hshown] at h ⊢
      exact (minus?_eq_some h).symm
    · rw [if_neg hshown] at h ⊢
      obtain ⟨here, hhere, h⟩ := Option.bind_eq_some_iff.1 h
      obtain ⟨stop, hstop, h⟩ := Option.bind_eq_some_iff.1 h
      obtain rfl := minus?_eq_some hhere
      obtain rfl := plus?_eq_some hstop
      by_cases hhidden : line ≤ first + before + (total - before)
      · rw [if_pos hhidden] at h ⊢
        exact Option.some.inj h
      · rw [if_neg hhidden] at h ⊢
        exact ih h

/-- **No sum of the search wraps, and no difference is of more than there is**, and it finds the row of natural numbers. -/
theorem rowFrom?_words {given : List (Nat × Nat)} {before : Nat}
    (hentries : ∀ entry ∈ totalsFrom before given, entry.1 + entry.2 < 2 ^ 64) (hbefore : before ≤ line.toNat) :
    rowFrom? (.ofNat before) ((totalsFrom before given).map fun entry => (.ofNat entry.1, .ofNat entry.2)) line =
      some (.ofNat (rowFrom before (totalsFrom before given) line.toNat)) := by
  have hminus : minus? line (.ofNat before) = some (.ofNat (line.toNat - before)) := by
    have hword := minus?_ofNat line.toNat_lt hbefore
    rwa [UInt64.ofNat_toNat] at hword
  induction given generalizing before with
  | nil => exact hminus
  | cons first given ih =>
    obtain ⟨row, hidden⟩ := first
    obtain ⟨hfirst, hentries⟩ := List.forall_mem_cons.1 hentries
    simp only at hfirst
    have hstart := plus?_ofNat (show row + before < 2 ^ 64 by omega)
    have hhere := minus?_ofNat (show before + hidden < 2 ^ 64 by omega) (Nat.le_add_right before hidden)
    have hstop := plus?_ofNat (show row + before + (before + hidden - before) < 2 ^ 64 by omega)
    have hshown := le_ofNat_iff (show row + before < 2 ^ 64 by omega) line
    have hends := le_ofNat_iff (show row + before + (before + hidden - before) < 2 ^ 64 by omega) line
    rw [totalsFrom, List.map_cons, rowFrom?, rowFrom, hstart, Option.bind_some]
    by_cases hle : line.toNat ≤ row + before
    · rw [if_pos (hshown.2 hle), if_pos hle]
      exact hminus
    · rw [if_neg (mt hshown.1 hle), if_neg hle, hhere, Option.bind_some, hstop, Option.bind_some]
      by_cases hwithin : line.toNat ≤ row + before + (before + hidden - before)
      · rw [if_pos (hends.2 hwithin), if_pos hwithin]
      · rw [if_neg (mt hends.1 hwithin), if_neg hwithin]
        have hpassed : before + hidden ≤ line.toNat := by omega
        have hminus' : minus? line (.ofNat (before + hidden)) = some (.ofNat (line.toNat - (before + hidden))) := by
          have hword := minus?_ofNat line.toNat_lt hpassed
          rwa [UInt64.ofNat_toNat] at hword
        exact ih hentries hpassed hminus'

theorem rowFrom?_ofPushes (h : Ascending pushes) (hfits : Fits pushes) (line : UInt64) :
    rowFrom? 0 (ofPushes pushes).entries line = some (.ofNat ((ofPushes (exactPushes pushes)).rowOf line.toNat)) := by
  rw [ofPushes_eq_words, words, rowOf, entries_ofPushes]
  exact rowFrom?_words (hfits.entries_lt h) (Nat.zero_le _)

theorem rowOf_eq_ofNat (h : Ascending pushes) (hfits : Fits pushes) (line : UInt64) :
    (ofPushes pushes).rowOf line = .ofNat ((ofPushes (exactPushes pushes)).rowOf line.toNat) :=
  rowFrom_of_rowFrom? (rowFrom?_ofPushes h hfits line)

/-- **The row found for a line in words is the row of the line.** -/
theorem toNat_rowOf (h : Ascending pushes) (hfits : Fits pushes) (line : UInt64) :
    ((ofPushes pushes).rowOf line).toNat = (ofPushes (exactPushes pushes)).rowOf line.toNat := by
  rw [rowOf_eq_ofNat h hfits]
  apply toNat_ofNat_of_fits
  -- a row is not behind its line, and its line is not behind the one it was found for
  have hlogical := (gc_logical_rowOf h.exact).l_u_le line.toNat
  rw [logical_ofPushes h.exact] at hlogical
  exact Nat.lt_of_le_of_lt (Nat.le_trans (Nat.le_add_right _ _) hlogical) line.toNat_lt

/-- **A row hides a line in words exactly if it hides the line.** -/
theorem hides_iff (h : Ascending pushes) (hfits : Fits pushes) :
    Hides pushes row line ↔ Hides (exactPushes pushes) row.toNat line.toNat := by
  have hends : ∀ hidden, (row, hidden) ∈ pushes →
      ((ofPushes pushes).logical row + hidden).toNat =
        (ofPushes (exactPushes pushes)).logical row.toNat + hidden.toNat := by
    intro hidden hp
    have hlt := hfits.hidden_lt h hp
    have hline : HasLine pushes row := Nat.lt_of_le_of_lt (Nat.le_add_right _ _) hlt
    rw [UInt64.toNat_add, toNat_logical h hfits hline, logical_ofPushes h.exact, Nat.mod_eq_of_lt hlt]
  have hline : ∀ hidden, (row, hidden) ∈ pushes → HasLine pushes row := fun hidden hp =>
    Nat.lt_of_le_of_lt (Nat.le_add_right _ _) (hfits.hidden_lt h hp)
  constructor
  · rintro ⟨hidden, hp, hbelow, hwithin⟩
    refine ⟨hidden.toNat, List.mem_map.2 ⟨_, hp, rfl⟩, ?_, ?_⟩
    · rwa [UInt64.lt_iff_toNat_lt, toNat_logical h hfits (hline hidden hp)] at hbelow
    · rwa [UInt64.le_iff_toNat_le, hends hidden hp] at hwithin
  · rintro ⟨hidden, hp, hbelow, hwithin⟩
    obtain ⟨⟨other, behind⟩, hmem, hsame⟩ := List.mem_map.1 hp
    obtain ⟨hrow, hhidden⟩ := Prod.mk.inj hsame
    obtain rfl : other = row := UInt64.toNat_inj.1 hrow
    refine ⟨behind, hmem, ?_, ?_⟩
    · rwa [UInt64.lt_iff_toNat_lt, toNat_logical h hfits (hline behind hmem)]
    · rwa [UInt64.le_iff_toNat_le, hends behind hmem, hhidden]

/-! ## There and back -/

/-- **Rows translate to lines and back.** Let collapsed rows be added from the top down, each with any number of hidden
lines, as long as the last of these has a number that fits into a word. Then of the rows whose lines have such a number, one
further down has a line further down. The row found for a line is the last of them whose line does not come behind it, no
sum on the way wraps, and none of the differences is of more than there is. So the way there and back leads to the row
itself; and of the lines that are no row's, each is hidden by one collapsed row, which is the row found for it. -/
theorem rows_translate (h : Ascending pushes) (hfits : Fits pushes) :
    (∀ row row', HasLine pushes row' → row < row' → (ofPushes pushes).logical row < (ofPushes pushes).logical row') ∧
    (∀ line, IsGreatest {row | HasLine pushes row ∧ (ofPushes pushes).logical row ≤ line} ((ofPushes pushes).rowOf line) ∧
      rowFrom? 0 (ofPushes pushes).entries line = some ((ofPushes pushes).rowOf line)) ∧
    (∀ row, HasLine pushes row → (ofPushes pushes).rowOf ((ofPushes pushes).logical row) = row) ∧
    ∀ line, ((∀ row, HasLine pushes row → (ofPushes pushes).logical row ≠ line) ↔ ∃ row, Hides pushes row line) ∧
      ∀ row, Hides pushes row line → (ofPushes pushes).rowOf line = row := by
  have hgc := gc_logical_rowOf h.exact
  have hback : ∀ row, HasLine pushes row → (ofPushes pushes).rowOf ((ofPushes pushes).logical row) = row := by
    intro row hline
    rw [← UInt64.toNat_inj, toNat_rowOf h hfits, toNat_logical h hfits hline, rowOf_logical h.exact]
  -- the line of the row that is found is not behind the one it was found for, so its number fits
  have hfound : ∀ line, HasLine pushes ((ofPushes pushes).rowOf line) := by
    intro line
    rw [hasLine_iff h, toNat_rowOf h hfits]
    exact Nat.lt_of_le_of_lt (hgc.l_u_le line.toNat) line.toNat_lt
  have hhides : ∀ line row, Hides pushes row line → (ofPushes pushes).rowOf line = row := by
    intro line row hrow
    rw [← UInt64.toNat_inj, toNat_rowOf h hfits]
    exact rowOf_of_hides h.exact ((hides_iff h hfits).1 hrow)
  refine ⟨?_, fun line => ⟨⟨⟨hfound line, ?_⟩, ?_⟩, ?_⟩, hback, fun line => ⟨⟨?_, ?_⟩, hhides line⟩⟩
  · intro row row' hline' hlt
    have hmono := logical_strictMono h.exact (UInt64.lt_iff_toNat_lt.1 hlt)
    have hline : HasLine pushes row := (hasLine_iff h).2 (Nat.lt_trans hmono ((hasLine_iff h).1 hline'))
    rwa [UInt64.lt_iff_toNat_lt, toNat_logical h hfits hline, toNat_logical h hfits hline']
  · rw [UInt64.le_iff_toNat_le, toNat_logical h hfits (hfound line), toNat_rowOf h hfits]
    exact hgc.l_u_le line.toNat
  · rintro row ⟨hline, hle⟩
    rw [UInt64.le_iff_toNat_le, toNat_logical h hfits hline] at hle
    rw [UInt64.le_iff_toNat_le, toNat_rowOf h hfits]
    exact hgc.le_u hle
  · rw [rowOf_eq_ofNat h hfits]
    exact rowFrom?_ofPushes h hfits line
  · intro hnone
    refine ⟨(ofPushes pushes).rowOf line, (hides_iff h hfits).2 ?_⟩
    rw [toNat_rowOf h hfits]
    refine (logical_rowOf_or_hides h.exact line.toNat).resolve_left fun hsame => hnone _ (hfound line) ?_
    rw [← UInt64.toNat_inj, toNat_logical h hfits (hfound line), toNat_rowOf h hfits, hsame]
  · -- a row of its own would be the one that hides the line
    rintro ⟨row, hrow⟩ other hline rfl
    have hsame : other = row := (hback other hline).symm.trans (hhides _ row hrow)
    obtain ⟨hidden, -, hbelow, -⟩ := hrow
    rw [hsame] at hbelow
    exact absurd hbelow (UInt64.lt_irrefl _)

/-- rows next to each other, one of which hides nothing: the first hides the lines 1 and 2 -/
theorem rows_translate_adjacent :
    let pushes : List (UInt64 × UInt64) := [(0, 2), (1, 0), (2, 1)]
    Ascending pushes ∧ Fits pushes ∧ Hides pushes 0 2 ∧ (ofPushes pushes).rowOf 2 = 0 ∧ (ofPushes pushes).rowOf 3 = 1 ∧
      ∀ row, HasLine pushes row → (ofPushes pushes).logical row ≠ 5 := by
  intro pushes
  have hascending : Ascending pushes := by
    unfold Ascending
    decide
  have hfits : Fits pushes := by
    rintro last ⟨⟩
    decide
  obtain ⟨-, -, hback, hlines⟩ := rows_translate hascending hfits
  have hfirst : Hides pushes 0 2 := ⟨2, by decide, by decide, by decide⟩
  have hlast : Hides pushes 2 5 := ⟨1, by decide, by decide, by decide⟩
  have hsecond : HasLine pushes 1 := by
    unfold HasLine
    decide
  exact ⟨hascending, hfits, hfirst, (hlines 2).2 0 hfirst, hback 1 hsecond, (hlines 5).1.2 ⟨2, hlast⟩⟩

/-- two rows that hide half of all words each: the next row comes out above the second one, and is not found for its line -/
theorem logical_wraps :
    let pushes : List (UInt64 × UInt64) := [(0, 9223372036854775808), (1, 9223372036854775808)]
    Ascending pushes ∧ (ofPushes pushes).logical 2 < (ofPushes pushes).logical 1 ∧
      (ofPushes pushes).rowOf ((ofPushes pushes).logical 2) ≠ 2 := by
  intro pushes
  have hascending : Ascending pushes := by
    unfold Ascending
    decide
  exact ⟨hascending, by decide, by decide⟩

end HiddenRows

end Linewise
