/-
What a search finds.

A search visits the places of a text in order and takes the first whose match is accepted (`searchFrom?_eq`). So a
match found is the match of the place where it begins, and no place with an accepted match is passed over
(`searchFrom?_le`). The matches of a whole text leave out only what they cover: `hits_cover`.
-/
import Linewise.Proofs.Regex.Places

namespace Linewise.Regex

/-- a match of at least one character, from `start` to a place after it -/
structure Hit.Proper (h : Hit) : Prop where
  stop_mem : h.stop ∈ h.start.places
  lt : h.start.offset < h.stop.offset

/-- the byte at the place is matched -/
def Hit.Covers (h : Hit) (c : Cursor) : Prop := h.start.offset ≤ c.offset ∧ c.offset < h.stop.offset

/-- the text of a match stands between its two ends -/
theorem Hit.rest_eq_text_append {hit : Hit} (h : hit.stop ∈ hit.start.places) :
    hit.start.rest = hit.text ++ hit.stop.rest ∧ hit.start.offset + Text.width hit.text = hit.stop.offset := by
  obtain ⟨between, hrest, hoffset⟩ := Cursor.rest_eq_append h
  have htext : hit.text = between := by
    rw [Hit.text, hrest, List.length_append, Nat.add_sub_cancel, List.take_left]
  rw [htext]
  exact ⟨hrest, hoffset⟩

/-- a match that begins at or before a place covers it or ends at or before it -/
theorem Hit.covers_or_after {h : Hit} {root d : Cursor} (hstart : h.start ∈ root.places) (hstop : h.stop ∈ h.start.places)
    (hd : d ∈ root.places) (hle : h.start.offset ≤ d.offset) : (h.isEmpty = false ∧ h.Covers d) ∨ d ∈ h.stop.places := by
  rcases Nat.lt_or_ge d.offset h.stop.offset with hlt | hge
  · have hne : h.start.offset ≠ h.stop.offset := by omega
    exact Or.inl ⟨by simpa [Hit.isEmpty] using hne, hle, hlt⟩
  · exact Or.inr (Cursor.mem_places_of_le (Cursor.places_trans hstart hstop) hd hge)

namespace Expr

variable {e : Expr} {c d : Cursor} {hit : Hit} {accept : Hit → Bool}

theorem matchAt?_some (h : e.matchAt? c = some hit) : hit.start = c ∧ hit.stop ∈ c.places := by
  obtain ⟨stop, hstop, rfl⟩ := Option.map_eq_some_iff.1 h
  exact ⟨rfl, e.ends_places (List.mem_of_head? hstop)⟩

theorem matchAt?_proper (h : e.matchAt? c = some hit) (hne : hit.isEmpty = false) : hit.Proper := by
  obtain ⟨rfl, hstop⟩ := matchAt?_some h
  have hdiffer : hit.start.offset ≠ hit.stop.offset := by simpa [Hit.isEmpty] using hne
  exact ⟨hstop, Nat.lt_of_le_of_ne (Cursor.offset_le hstop) hdiffer⟩

/-- no match that is not empty begins at the end of the text -/
theorem matchAt?_rest (h : e.matchAt? c = some hit) (hne : hit.isEmpty = false) : c.rest ≠ [] := by
  intro hend
  have hproper := matchAt?_proper h hne
  have hstop := hproper.stop_mem
  rw [(matchAt?_some h).1, Cursor.places_of_nil hend, List.mem_singleton] at hstop
  exact absurd hproper.lt (by rw [hstop, (matchAt?_some h).1]; exact Nat.lt_irrefl _)

/-- **A search is a walk over the places**, which ends at the first accepted match. -/
theorem searchFrom?_eq (e : Expr) (accept : Hit → Bool) (c : Cursor) :
    e.searchFrom? accept c.offset c.before c.rest = c.places.findSome? fun d => (e.matchAt? d).filter accept := by
  induction c using Cursor.induct with
  | nil c hc =>
    obtain ⟨offset, before, _⟩ := c
    cases hc
    simp only [searchFrom?, Cursor.places, Cursor.placesFrom, List.findSome?_cons, List.findSome?_nil]
    cases (e.matchAt? ⟨offset, before, []⟩).filter accept <;> rfl
  | cons c x rest hc ih =>
    rw [Cursor.places_of_cons hc, List.findSome?_cons, ← ih]
    obtain ⟨offset, before, _⟩ := c
    cases hc
    simp only [searchFrom?, Cursor.past]
    cases (e.matchAt? ⟨offset, before, x :: rest⟩).filter accept <;> rfl

/-- the match found is that of the place where it begins -/
theorem searchFrom?_some (h : e.searchFrom? accept c.offset c.before c.rest = some hit) :
    hit.start ∈ c.places ∧ e.matchAt? hit.start = some hit ∧ accept hit = true := by
  rw [searchFrom?_eq] at h
  obtain ⟨d, hd, hmatch⟩ := List.exists_of_findSome?_eq_some h
  obtain ⟨hmatch, haccept⟩ := Option.filter_eq_some_iff.1 hmatch
  obtain ⟨rfl, -⟩ := matchAt?_some hmatch
  exact ⟨hd, hmatch, haccept⟩

/-- no place with an accepted match is passed over -/
theorem searchFrom?_le (hd : d ∈ c.places) (hmatch : e.matchAt? d = some hit) (haccept : accept hit = true) :
    ∃ first, e.searchFrom? accept c.offset c.before c.rest = some first ∧ first.start.offset ≤ d.offset := by
  have hd' : (e.matchAt? d).filter accept = some hit := by simp [hmatch, haccept]
  rw [searchFrom?_eq]
  obtain ⟨front, back, hplaces⟩ := List.append_of_mem hd
  rw [hplaces, List.findSome?_append]
  cases hfront : front.findSome? fun d => (e.matchAt? d).filter accept with
  | none =>
    exact ⟨hit, by simp [hd'], Nat.le_of_eq (congrArg Cursor.offset (matchAt?_some hmatch).1)⟩
  | some first =>
    obtain ⟨f, hf, hfirst⟩ := List.exists_of_findSome?_eq_some hfront
    refine ⟨first, rfl, ?_⟩
    obtain ⟨rfl, -⟩ := matchAt?_some (Option.filter_eq_some_iff.1 hfirst).1
    have hpairwise := c.places_pairwise
    rw [hplaces, List.pairwise_append] at hpairwise
    exact Nat.le_of_lt (hpairwise.2.2 _ hf d List.mem_cons_self)

theorem find?_some (h : e.find? c = some hit) :
    hit.start ∈ c.places ∧ e.matchAt? hit.start = some hit ∧ hit.stop ∈ hit.start.places := by
  obtain ⟨hstart, hmatch, -⟩ := searchFrom?_some h
  exact ⟨hstart, hmatch, (matchAt?_some hmatch).2⟩

theorem find?_le (hd : d ∈ c.places) (hmatch : e.matchAt? d = some hit) :
    ∃ first, e.find? c = some first ∧ first.start.offset ≤ d.offset := searchFrom?_le hd hmatch rfl

theorem findNonempty?_some (h : e.findNonempty? c = some hit) :
    hit.start ∈ c.places ∧ e.matchAt? hit.start = some hit ∧ hit.isEmpty = false := by
  obtain ⟨hstart, hmatch, hne⟩ := searchFrom?_some h
  exact ⟨hstart, hmatch, by simpa using hne⟩

theorem findNonempty?_le (hd : d ∈ c.places) (hmatch : e.matchAt? d = some hit) (hne : hit.isEmpty = false) :
    ∃ first, e.findNonempty? c = some first ∧ first.start.offset ≤ d.offset :=
  searchFrom?_le hd hmatch (by simp [hne])

/-! ## All matches of a text -/

/-- the next match begins and ends at places of the rest of the text, and ends further on -/
theorem findAfter?_some (h : e.findAfter? c = some hit) :
    hit.start ∈ c.places ∧ e.matchAt? hit.start = some hit ∧ hit.stop ∈ hit.start.places ∧ c.offset < hit.stop.offset := by
  rw [findAfter?] at h
  cases hfind : e.find? c with
  | none => simp [hfind] at h
  | some first =>
    simp only [hfind] at h
    split_ifs at h with hstop
    · obtain ⟨next, hnext, hit'⟩ := Option.bind_eq_some_iff.1 h
      obtain ⟨hnextmem, hlt⟩ := Cursor.next?_mem hnext
      obtain ⟨hstart, hmatch, hmem⟩ := find?_some hit'
      refine ⟨Cursor.places_trans hnextmem hstart, hmatch, hmem, ?_⟩
      calc c.offset < next.offset := hlt
        _ ≤ hit.start.offset := Cursor.offset_le hstart
        _ ≤ hit.stop.offset := Cursor.offset_le hmem
    · cases h
      obtain ⟨hstart, hmatch, hmem⟩ := find?_some hfind
      have hle := Cursor.offset_le (Cursor.places_trans hstart hmem)
      exact ⟨hstart, hmatch, hmem, by omega⟩

/-- the next match begins at or before any match that is not empty -/
theorem findAfter?_le (hd : d ∈ c.places) (hmatch : e.matchAt? d = some hit) (hne : hit.isEmpty = false) :
    ∃ first, e.findAfter? c = some first ∧ first.start.offset ≤ d.offset := by
  obtain ⟨first, hfirst, hle⟩ := find?_le hd hmatch
  rw [findAfter?, hfirst]
  simp only
  split_ifs with hstop
  · -- the match passed over is empty, so it is not the one at `d`
    obtain ⟨hstart, hmatch', hmem⟩ := find?_some hfirst
    have hat : first.start.offset = c.offset := by
      have h₁ := Cursor.offset_le hstart
      have h₂ := Cursor.offset_le hmem
      omega
    have hlt : c.offset < d.offset := by
      refine Nat.lt_of_le_of_ne (Cursor.offset_le hd) fun hsame => ?_
      have hcd := Cursor.eq_of_offset c.mem_places_self hd hsame
      have hcs := Cursor.eq_of_offset hstart c.mem_places_self hat
      rw [hcs, hcd, hmatch] at hmatch'
      cases hmatch'
      exact absurd (matchAt?_proper hmatch hne).lt (by omega)
    cases hnext : c.next? with
    | none =>
      have hend : c.rest = [] := by
        cases hr : c.rest with
        | nil => rfl
        | cons x rest => simp [Cursor.next?, hr] at hnext
      rw [Cursor.places_of_nil hend, List.mem_singleton] at hd
      exact absurd hlt (by rw [hd]; exact Nat.lt_irrefl _)
    | some next => exact find?_le (Cursor.mem_places_next hnext hd hlt) hmatch
  · exact ⟨first, rfl, hle⟩

theorem hitsAfter_hit {fuel : Nat} (h : hit ∈ e.hitsAfter fuel c) :
    hit.start ∈ c.places ∧ e.matchAt? hit.start = some hit := by
  induction fuel generalizing c with
  | zero => cases h
  | succ fuel ih =>
    rw [hitsAfter] at h
    cases hfind : e.findAfter? c with
    | none =>
      simp only [hfind] at h
      cases h
    | some first =>
      simp only [hfind, List.mem_cons] at h
      obtain ⟨hstart, hmatch, hmem, -⟩ := findAfter?_some hfind
      rcases h with rfl | h
      · exact ⟨hstart, hmatch⟩
      · obtain ⟨hlater, hmatch'⟩ := ih h
        exact ⟨Cursor.places_trans hstart (Cursor.places_trans hmem hlater), hmatch'⟩

/-- each match listed is the match of the place where it begins -/
theorem hits_hit {text : Text} (h : hit ∈ e.hits text) :
    hit.start ∈ (Cursor.start text).places ∧ e.matchAt? hit.start = some hit := by
  rw [hits] at h
  cases hfind : e.find? (.start text) with
  | none =>
    simp only [hfind] at h
    cases h
  | some first =>
    simp only [hfind, List.mem_cons] at h
    obtain ⟨hstart, hmatch, hmem⟩ := find?_some hfind
    rcases h with rfl | h
    · exact ⟨hstart, hmatch⟩
    · obtain ⟨hlater, hmatch'⟩ := hitsAfter_hit h
      exact ⟨Cursor.places_trans hstart (Cursor.places_trans hmem hlater), hmatch'⟩

theorem hitsAfter_cover {fuel : Nat} (hfuel : c.rest.length ≤ fuel) (hd : d ∈ c.places) (hmatch : e.matchAt? d = some hit)
    (hne : hit.isEmpty = false) : ∃ other ∈ e.hitsAfter fuel c, other.isEmpty = false ∧ other.Covers d := by
  induction fuel generalizing c with
  | zero =>
    have hend : c.rest = [] := List.length_eq_zero_iff.1 (Nat.le_zero.1 hfuel)
    rw [Cursor.places_of_nil hend, List.mem_singleton] at hd
    exact absurd (hd ▸ hend) (matchAt?_rest hmatch hne)
  | succ fuel ih =>
    obtain ⟨first, hfirst, hle⟩ := findAfter?_le hd hmatch hne
    obtain ⟨hstart, -, hstop, hfurther⟩ := findAfter?_some hfirst
    rw [hitsAfter, hfirst]
    rcases Hit.covers_or_after hstart hstop hd hle with hcovers | hafter
    · exact ⟨first, List.mem_cons_self, hcovers⟩
    · have hshorter := Cursor.length_lt_of_offset_lt (Cursor.places_trans hstart hstop) hfurther
      obtain ⟨other, hother, hcovers⟩ := ih (by omega) hafter
      exact ⟨other, List.mem_cons_of_mem _ hother, hcovers⟩

/-- **Every match that is not empty begins inside one of those listed.** -/
theorem hits_cover {text : Text} (hd : d ∈ (Cursor.start text).places) (hmatch : e.matchAt? d = some hit)
    (hne : hit.isEmpty = false) : ∃ other ∈ e.hits text, other.isEmpty = false ∧ other.Covers d := by
  obtain ⟨first, hfirst, hle⟩ := find?_le hd hmatch
  obtain ⟨hstart, -, hstop⟩ := find?_some hfirst
  rw [hits, hfirst]
  rcases Hit.covers_or_after hstart hstop hd hle with hcovers | hafter
  · exact ⟨first, List.mem_cons_self, hcovers⟩
  · have hshorter : first.stop.rest.length ≤ text.length :=
      Cursor.length_le (Cursor.places_trans hstart hstop)
    obtain ⟨other, hother, hcovers⟩ := hitsAfter_cover hshorter hafter hmatch hne
    exact ⟨other, List.mem_cons_of_mem _ hother, hcovers⟩

end Expr

end Linewise.Regex
