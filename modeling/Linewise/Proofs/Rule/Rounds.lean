/-
Looking for a rule in a text, round by round and without bounds.

Three loops find the matches of a rule. One looks for a match of the opening pattern of a range that is not empty, search by
search (`Tries`); one goes on from range to range (`Rounds`); one lists the matches of a keyword (`Lists`). Here they are
given by rules of inference, with no bound on the number of rounds: a loop that never ended would have no derivation. That
each has one is shown from the step it takes: it goes on strictly behind the place where it began, whether or not patterns
match the empty text, so less and less of the text is left.

Main statements: `Tries.ascending` and `Rounds.ascending`, the places where rounds begin come strictly one after the other;
`Rule.looks_iff`, the loops end, and with the matches of the rule.
-/
import Linewise.Proofs.Rule.Occurrences

namespace Linewise

open Regex

/-- places of one text, each further right than those before it -/
abbrev Regex.Cursor.Ascending (places : List Cursor) : Prop := places.Pairwise (·.offset < ·.offset)

/-- a loop that goes on further right, and then from place to place -/
theorem Regex.Cursor.Ascending.cons {c next : Cursor} {places : List Cursor} (hlt : c.offset < next.offset)
    (hplaces : ∀ d ∈ places, d ∈ next.places) (h : Ascending places) : Ascending (c :: places) :=
  List.pairwise_cons.2 ⟨fun d hd => Nat.lt_of_lt_of_le hlt (Cursor.offset_le (hplaces d hd)), h⟩

namespace Regex.Expr

variable {e : Expr} {c next : Cursor} {hit : Hit} {tried : List Cursor} {answer : Option Hit} {hits : List Hit} {text : Text}

/-! ## Matches that are not empty -/

/-- looking for a match that is not empty: where a search finds an empty one, the next search begins one character behind
it. Listed are the places where searches begin. -/
inductive Tries (e : Expr) : Cursor → List Cursor → Option Hit → Prop
  | none {c : Cursor} : e.find? c = .none → Tries e c [c] .none
  | found {c : Cursor} {hit : Hit} : e.find? c = some hit → hit.isEmpty = false → Tries e c [c] (some hit)
  | ended {c : Cursor} {hit : Hit} : e.find? c = some hit → hit.isEmpty = true → hit.start.next? = .none →
      Tries e c [c] .none
  | again {c next : Cursor} {hit : Hit} {tried : List Cursor} {answer : Option Hit} : e.find? c = some hit →
      hit.isEmpty = true → hit.start.next? = some next → Tries e next tried answer → Tries e c (c :: tried) answer

/-- **A search goes on strictly behind the place where it began.** -/
theorem next_of_find? (h : e.find? c = some hit) (hnext : hit.start.next? = some next) :
    next ∈ c.places ∧ c.offset < next.offset := by
  obtain ⟨hstart, -, -⟩ := find?_some h
  obtain ⟨hmem, hlt⟩ := Cursor.next?_mem hnext
  exact ⟨Cursor.places_trans hstart hmem, Nat.lt_of_le_of_lt (Cursor.offset_le hstart) hlt⟩

theorem Tries.mem_places (h : e.Tries c tried answer) : ∀ d ∈ tried, d ∈ c.places := by
  induction h with
  | none | found | ended => exact List.forall_mem_singleton.2 (Cursor.mem_places_self _)
  | again hfind _ hnext _ ih =>
    refine List.forall_mem_cons.2 ⟨Cursor.mem_places_self _, fun d hd => ?_⟩
    exact Cursor.places_trans (next_of_find? hfind hnext).1 (ih d hd)

/-- **Searches for a match that is not empty begin further and further right.** -/
theorem Tries.ascending (h : e.Tries c tried answer) : Cursor.Ascending tried := by
  induction h with
  | none | found | ended => exact List.pairwise_singleton _ _
  | again hfind _ hnext hrest ih => exact ih.cons (next_of_find? hfind hnext).2 hrest.mem_places

/-- so they come to an end -/
theorem exists_tries (e : Expr) (c : Cursor) : ∃ tried answer, e.Tries c tried answer := by
  induction hlength : c.rest.length using Nat.strongRecOn generalizing c with
  | _ n ih =>
    cases hfind : e.find? c with
    | none => exact ⟨[c], .none, .none hfind⟩
    | some hit =>
      cases hempty : hit.isEmpty with
      | false => exact ⟨[c], some hit, .found hfind hempty⟩
      | true =>
        cases hnext : hit.start.next? with
        | none => exact ⟨[c], .none, .ended hfind hempty hnext⟩
        | some next =>
          obtain ⟨hmem, hlt⟩ := next_of_find? hfind hnext
          have hshorter := Cursor.length_lt_of_offset_lt hmem hlt
          obtain ⟨tried, answer, htries⟩ := ih next.rest.length (hlength ▸ hshorter) next rfl
          exact ⟨c :: tried, answer, .again hfind hempty hnext htries⟩

/-- no match that is not empty begins before the one found, or at its place if that is empty -/
theorem lt_of_find?_isEmpty {first : Hit} (hfind : e.find? c = some hit) (hempty : hit.isEmpty = true)
    (hfirst : e.findNonempty? c = some first) : hit.start.offset < first.start.offset := by
  obtain ⟨hstart, hmatch, hne⟩ := findNonempty?_some hfirst
  obtain ⟨hit', hfind', hle⟩ := find?_le hstart hmatch
  obtain rfl : hit' = hit := Option.some.inj (hfind'.symm.trans hfind)
  refine Nat.lt_of_le_of_ne hle fun hsame => ?_
  obtain ⟨hstart', hmatch', -⟩ := find?_some hfind
  rw [Cursor.eq_of_offset hstart' hstart hsame, hmatch] at hmatch'
  cases hmatch'
  rw [hne] at hempty
  cases hempty

/-- what a search from a place finds is determined by the matches that lie there -/
theorem findNonempty?_congr (hnext : next ∈ c.places)
    (h : ∀ first, e.findNonempty? c = some first → first.start ∈ next.places) : e.findNonempty? c = e.findNonempty? next := by
  cases hfirst : e.findNonempty? c with
  | none =>
    cases hlater : e.findNonempty? next with
    | none => rfl
    | some later =>
      obtain ⟨hstart, hmatch, hne⟩ := findNonempty?_some hlater
      obtain ⟨first, hsome, -⟩ := findNonempty?_le (Cursor.places_trans hnext hstart) hmatch hne
      rw [hsome] at hfirst
      cases hfirst
  | some first =>
    have hmem := h first hfirst
    obtain ⟨hstart, hmatch, hne⟩ := findNonempty?_some hfirst
    obtain ⟨later, hlater, hle⟩ := findNonempty?_le hmem hmatch hne
    obtain ⟨hstart', hmatch', hne'⟩ := findNonempty?_some hlater
    obtain ⟨first', hfirst', hle'⟩ := findNonempty?_le (Cursor.places_trans hnext hstart') hmatch' hne'
    obtain rfl : first' = first := Option.some.inj (hfirst'.symm.trans hfirst)
    rw [hlater, ← hmatch, ← hmatch', Cursor.eq_of_offset hmem hstart' (Nat.le_antisymm hle' hle)]

theorem Tries.answer_eq (h : e.Tries c tried answer) : answer = e.findNonempty? c := by
  induction h with
  | @none c hnone =>
    cases hfirst : e.findNonempty? c with
    | none => rfl
    | some first =>
      obtain ⟨hstart, hmatch, -⟩ := findNonempty?_some hfirst
      obtain ⟨hit, hfind, -⟩ := find?_le hstart hmatch
      rw [hfind] at hnone
      cases hnone
  | @found c hit hfind hne =>
    obtain ⟨hstart, hmatch, -⟩ := find?_some hfind
    obtain ⟨first, hfirst, hle⟩ := findNonempty?_le hstart hmatch hne
    obtain ⟨hstart', hmatch', -⟩ := findNonempty?_some hfirst
    obtain ⟨hit', hfind', hle'⟩ := find?_le hstart' hmatch'
    obtain rfl : hit' = hit := Option.some.inj (hfind'.symm.trans hfind)
    rw [hfirst, ← hmatch, ← hmatch', Cursor.eq_of_offset hstart hstart' (Nat.le_antisymm hle' hle)]
  | @ended c hit hfind hempty hend =>
    cases hfirst : e.findNonempty? c with
    | none => rfl
    | some first =>
      -- behind the last place of the text no match begins
      have hlt := lt_of_find?_isEmpty hfind hempty hfirst
      obtain ⟨hstart, -, -⟩ := find?_some hfind
      have hmem := Cursor.mem_places_of_le hstart (findNonempty?_some hfirst).1 (Nat.le_of_lt hlt)
      cases hrest : hit.start.rest with
      | nil =>
        rw [Cursor.places_of_nil hrest, List.mem_singleton] at hmem
        exact absurd hlt (by rw [hmem]; exact Nat.lt_irrefl _)
      | cons x rest => simp [Cursor.next?, hrest] at hend
  | @again c next hit tried answer hfind hempty hnext _ ih =>
    rw [ih]
    refine (findNonempty?_congr (next_of_find? hfind hnext).1 fun first hfirst => ?_).symm
    have hlt := lt_of_find?_isEmpty hfind hempty hfirst
    obtain ⟨hstart, -, -⟩ := find?_some hfind
    exact Cursor.mem_places_next hnext (Cursor.mem_places_of_le hstart (findNonempty?_some hfirst).1 (Nat.le_of_lt hlt)) hlt

/-! ## Matches of a keyword -/

/-- listing the matches behind one that ended at a place -/
inductive ListsAfter (e : Expr) : Cursor → List Hit → Prop
  | done {c : Cursor} : e.findAfter? c = .none → ListsAfter e c []
  | next {c : Cursor} {hit : Hit} {hits : List Hit} : e.findAfter? c = some hit → ListsAfter e hit.stop hits →
      ListsAfter e c (hit :: hits)

/-- listing the matches of a text -/
inductive Lists (e : Expr) (text : Text) : List Hit → Prop
  | none : e.find? (.start text) = .none → Lists e text []
  | first {hit : Hit} {hits : List Hit} : e.find? (.start text) = some hit → ListsAfter e hit.stop hits →
      Lists e text (hit :: hits)

theorem length_lt_of_findAfter? (h : e.findAfter? c = some hit) : hit.stop.rest.length < c.rest.length := by
  obtain ⟨hstart, -, hstop, hlt⟩ := findAfter?_some h
  exact Cursor.length_lt_of_offset_lt (Cursor.places_trans hstart hstop) hlt

theorem exists_listsAfter (e : Expr) (c : Cursor) : ∃ hits, e.ListsAfter c hits := by
  induction hlength : c.rest.length using Nat.strongRecOn generalizing c with
  | _ n ih =>
    cases hfind : e.findAfter? c with
    | none => exact ⟨[], .done hfind⟩
    | some hit =>
      obtain ⟨hits, hlater⟩ := ih hit.stop.rest.length (hlength ▸ length_lt_of_findAfter? hfind) hit.stop rfl
      exact ⟨hit :: hits, .next hfind hlater⟩

/-- as many matches as there are characters left are enough -/
theorem ListsAfter.hits_eq {fuel : Nat} (h : e.ListsAfter c hits) (hfuel : c.rest.length ≤ fuel) :
    hits = e.hitsAfter fuel c := by
  induction h generalizing fuel with
  | done hdone =>
    cases fuel with
    | zero => rfl
    | succ fuel => simp only [hitsAfter, hdone]
  | next hfind _ ih =>
    have hshorter := length_lt_of_findAfter? hfind
    cases fuel with
    | zero => omega
    | succ fuel =>
      have hrest := ih (Nat.le_of_lt_succ (Nat.lt_of_lt_of_le hshorter hfuel))
      simp only [hitsAfter, hfind, ← hrest]

theorem length_le_of_find? (h : e.find? (.start text) = some hit) : hit.stop.rest.length ≤ text.length := by
  obtain ⟨hstart, -, hstop⟩ := find?_some h
  exact Cursor.length_le (Cursor.places_trans hstart hstop)

theorem lists_iff : e.Lists text hits ↔ hits = e.hits text := by
  constructor
  · intro h
    cases h with
    | none hfind => simp only [Expr.hits, hfind]
    | first hfind hlater => simp only [Expr.hits, hfind, hlater.hits_eq (length_le_of_find? hfind)]
  · rintro rfl
    rw [Expr.hits]
    cases hfind : e.find? (.start text) with
    | none => exact .none hfind
    | some hit =>
      obtain ⟨later, hlater⟩ := exists_listsAfter e hit.stop
      exact .first hfind (hlater.hits_eq (length_le_of_find? hfind) ▸ hlater)

end Regex.Expr

/-! ## Ranges -/

namespace Occurrences

variable {opening closing : Expr} {c : Cursor} {rounds : List Cursor} {found : List Hit × Bool}

/-- going from range to range: one that has an end is followed by those behind it. Listed are the places where rounds
begin. -/
inductive Rounds (opening closing : Expr) : Cursor → List Cursor → List Hit × Bool → Prop
  | done {c : Cursor} {tried : List Cursor} : opening.Tries c tried .none → Rounds opening closing c [c] ([], false)
  | unclosed {c : Cursor} {tried : List Cursor} {first : Hit} : opening.Tries c tried (some first) →
      closing.find? first.stop = .none →
      Rounds opening closing c [c] ([⟨first.start, first.stop.toEnd⟩], true)
  | closed {c : Cursor} {tried rounds : List Cursor} {first last : Hit} {found : List Hit × Bool} :
      opening.Tries c tried (some first) → closing.find? first.stop = some last →
      Rounds opening closing last.stop rounds found →
      Rounds opening closing c (c :: rounds) (⟨first.start, last.stop⟩ :: found.1, found.2)

/-- **A round goes on strictly behind the place where it began**: the opening match is not empty, though the closing one may
be. -/
theorem stop_of_round {tried : List Cursor} {first last : Hit} (hfirst : opening.Tries c tried (some first))
    (hlast : closing.find? first.stop = some last) : last.stop ∈ c.places ∧ c.offset < last.stop.offset := by
  obtain ⟨hstart, hmatch, hne⟩ := Expr.findNonempty?_some hfirst.answer_eq.symm
  have hproper := Expr.matchAt?_proper hmatch hne
  obtain ⟨hstart', -, hstop⟩ := Expr.find?_some hlast
  have hmem := Cursor.places_trans hstart' hstop
  refine ⟨Cursor.places_trans hstart (Cursor.places_trans hproper.stop_mem hmem), ?_⟩
  calc c.offset ≤ first.start.offset := Cursor.offset_le hstart
    _ < first.stop.offset := hproper.lt
    _ ≤ last.stop.offset := Cursor.offset_le hmem

theorem Rounds.mem_places (h : Rounds opening closing c rounds found) : ∀ d ∈ rounds, d ∈ c.places := by
  induction h with
  | done | unclosed => exact List.forall_mem_singleton.2 (Cursor.mem_places_self _)
  | closed hfirst hlast _ ih =>
    refine List.forall_mem_cons.2 ⟨Cursor.mem_places_self _, fun d hd => ?_⟩
    exact Cursor.places_trans (stop_of_round hfirst hlast).1 (ih d hd)

/-- **Rounds begin further and further right.** -/
theorem Rounds.ascending (h : Rounds opening closing c rounds found) : Cursor.Ascending rounds := by
  induction h with
  | done | unclosed => exact List.pairwise_singleton _ _
  | closed hfirst hlast hrest ih => exact ih.cons (stop_of_round hfirst hlast).2 hrest.mem_places

theorem exists_rounds (opening closing : Expr) (c : Cursor) : ∃ rounds found, Rounds opening closing c rounds found := by
  induction hlength : c.rest.length using Nat.strongRecOn generalizing c with
  | _ n ih =>
    obtain ⟨tried, answer, hfirst⟩ := opening.exists_tries c
    cases answer with
    | none => exact ⟨[c], _, .done hfirst⟩
    | some first =>
      cases hlast : closing.find? first.stop with
      | none => exact ⟨[c], _, .unclosed hfirst hlast⟩
      | some last =>
        obtain ⟨hmem, hlt⟩ := stop_of_round hfirst hlast
        have hshorter := Cursor.length_lt_of_offset_lt hmem hlt
        obtain ⟨rounds, found, hrounds⟩ := ih last.stop.rest.length (hlength ▸ hshorter) last.stop rfl
        exact ⟨c :: rounds, _, .closed hfirst hlast hrounds⟩

/-- as many rounds as there are characters left, and one more, are enough -/
theorem Rounds.found_eq {fuel : Nat} (h : Rounds opening closing c rounds found) (hfuel : c.rest.length < fuel) :
    found = ranges opening closing fuel c := by
  induction h generalizing fuel with
  | done hfirst =>
    obtain ⟨fuel, rfl⟩ := Nat.exists_eq_add_of_lt hfuel
    simp only [ranges, ← hfirst.answer_eq]
  | unclosed hfirst hlast =>
    obtain ⟨fuel, rfl⟩ := Nat.exists_eq_add_of_lt hfuel
    simp only [ranges, ← hfirst.answer_eq, hlast]
  | @closed c tried rounds first last found hfirst hlast _ ih =>
    obtain ⟨hmem, hlt⟩ := stop_of_round hfirst hlast
    have hshorter := Cursor.length_lt_of_offset_lt hmem hlt
    cases fuel with
    | zero => cases hfuel
    | succ fuel =>
      have hrest := ih (Nat.lt_of_lt_of_le hshorter (Nat.le_of_lt_succ hfuel))
      simp only [ranges, ← hfirst.answer_eq, hlast, ← hrest]

theorem rounds_iff {text : Text} : (∃ rounds, Rounds opening closing (.start text) rounds found) ↔
    found = ranges opening closing (text.length + 1) (.start text) := by
  have hfuel : (Cursor.start text).rest.length < text.length + 1 := Nat.lt_succ_self _
  constructor
  · rintro ⟨rounds, hrounds⟩
    exact hrounds.found_eq hfuel
  · rintro rfl
    obtain ⟨rounds, found, hrounds⟩ := exists_rounds opening closing (.start text)
    exact ⟨rounds, hrounds.found_eq hfuel ▸ hrounds⟩

end Occurrences

/-! ## Rules -/

namespace Rule

variable {rule : Rule} {text : Text} {found : Occurrences}

/-- looking for a rule in a text; one with a pattern without meaning matches nowhere -/
inductive Looks (rule : Rule) (text : Text) : Occurrences → Prop
  | invalid : rule.isValid = false → Looks rule text .none
  | keyword {pattern : Pattern} {e : Expr} {hits : List Hit} : rule.shape = .keyword pattern → pattern.expr = some e →
      e.Lists text hits → Looks rule text ⟨hits.filter (!·.isEmpty), false⟩
  | range {opening closing : Pattern} {o k : Expr} {rounds : List Cursor} {found : List Hit × Bool} :
      rule.shape = .range opening closing → opening.expr = some o → closing.expr = some k →
      Occurrences.Rounds o k (.start text) rounds found → Looks rule text ⟨found.1, found.2 && rule.spansLines⟩

theorem isValid_keyword {pattern : Pattern} (h : rule.shape = .keyword pattern) :
    rule.isValid = pattern.expr.isSome := by
  simp [isValid, patterns, h, Pattern.isValid]

theorem isValid_range {opening closing : Pattern} (h : rule.shape = .range opening closing) :
    rule.isValid = (opening.expr.isSome && closing.expr.isSome) := by
  simp [isValid, patterns, h, Pattern.isValid]

theorem occurrences_of_invalid (h : rule.isValid = false) (text : Text) : rule.occurrences text = .none := by
  cases hs : rule.shape with
  | keyword pattern =>
    rw [isValid_keyword hs, Option.isSome_eq_false_iff, Option.isNone_iff_eq_none] at h
    rw [occurrences_keyword hs, Pattern.hits, h]
    rfl
  | range opening closing =>
    rw [isValid_range hs] at h
    unfold occurrences
    rw [hs]
    cases ho : opening.expr with
    | none => simp [ho]
    | some o =>
      cases hk : closing.expr with
      | none => simp [ho, hk]
      | some k => simp [ho, hk] at h

/-- **Looking for a rule comes to an end, with the matches of the rule.** -/
theorem looks_iff : rule.Looks text found ↔ found = rule.occurrences text := by
  constructor
  · intro h
    cases h with
    | invalid hinvalid => exact (occurrences_of_invalid hinvalid text).symm
    | keyword hs he hlists => rw [occurrences_keyword hs, Pattern.hits, he, Expr.lists_iff.1 hlists]
    | range hs ho hk hrounds =>
      rw [occurrences_range hs ho hk, Occurrences.rounds_iff.1 ⟨_, hrounds⟩]
  · rintro rfl
    cases hvalid : rule.isValid with
    | false =>
      rw [occurrences_of_invalid hvalid]
      exact .invalid hvalid
    | true =>
      cases hs : rule.shape with
      | keyword pattern =>
        rw [isValid_keyword hs] at hvalid
        obtain ⟨e, he⟩ := Option.isSome_iff_exists.1 hvalid
        rw [occurrences_keyword hs, Pattern.hits, he]
        exact .keyword hs he (Expr.lists_iff.2 rfl)
      | range opening closing =>
        rw [isValid_range hs, Bool.and_eq_true] at hvalid
        obtain ⟨o, ho⟩ := Option.isSome_iff_exists.1 hvalid.1
        obtain ⟨k, hk⟩ := Option.isSome_iff_exists.1 hvalid.2
        obtain ⟨rounds, hrounds⟩ := Occurrences.rounds_iff.2 (rfl : Occurrences.ranges o k (text.length + 1) (.start text) = _)
        rw [occurrences_range hs ho hk]
        exact .range hs ho hk hrounds

end Rule

end Linewise
