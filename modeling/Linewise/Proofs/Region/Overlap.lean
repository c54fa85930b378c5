/-
What overlap resolution keeps.

Regions are sorted first (`sort_sorted`; a region is left out only for one with the same place, length and rule). Of
the kept regions those without a parent are the ones that a single sweep from left to right would keep, each from
where the last one ended (`keep_outermost`). So they do not overlap, a region without a parent that is dropped begins
inside a kept one, and every kept region lies inside one of them: `resolve_disjoint`, `resolve_cover`,
`resolve_inside`.
-/
import Mathlib.Data.List.Pairwise
import Mathlib.Data.List.TakeWhile
import Mathlib.Order.Compare
import Mathlib.Tactic.SplitIfs
import Linewise.Region.Overlap

namespace Linewise.Region

variable {a b r s : Region} {rs : List Region}

/-! ## The order of regions -/

instance : Std.TransCmp order :=
  have : Std.TransCmp fun a b : Region => compareOn Region.length b a :=
    @Std.TransCmp.opposite Region (compareOn Region.length) inferInstance
  inferInstanceAs (Std.TransCmp (compareLex (compareLex (compareLex (compareLex
    (compareOn Region.position) (compareOn Region.isNested)) fun a b => compareOn Region.length b a)
    (compareOn fun r => r.rule.bits)) (compareOn fun r => r.parent.bits)))

/-- two regions with the same place in the order differ at most in looks -/
theorem eq_of_order (h : a.order b = .eq) :
    a.position = b.position ∧ a.length = b.length ∧ a.rule = b.rule ∧ a.parent = b.parent := by
  simp only [order, Ordering.then_eq_eq, Std.compare_eq_iff_eq] at h
  obtain ⟨⟨⟨⟨hposition, -⟩, hlength⟩, hrule⟩, hparent⟩ := h
  exact ⟨hposition, hlength.symm, congrArg RuleId.mk hrule, congrArg RuleId.mk hparent⟩

theorem position_le_of_order (h : a.order b = .lt) : a.position ≤ b.position := by
  simp only [order, Ordering.then_eq_lt, Ordering.then_eq_eq, Std.compare_eq_iff_eq, Nat.compare_eq_lt] at h
  omega

/-- of two regions without a parent that begin at one place the longer one comes first -/
theorem length_le_of_order (h : a.order b = .lt) (hposition : a.position = b.position) (hnested : a.isNested = b.isNested) :
    b.length ≤ a.length := by
  simp only [order, Ordering.then_eq_lt, Ordering.then_eq_eq, Std.compare_eq_iff_eq, Nat.compare_eq_lt, hposition, hnested,
    Std.compare_self, reduceCtorEq, true_and, and_false, false_or] at h
  omega

theorem order_of_position (h : a.position < b.position) : a.order b = .lt := by
  rw [order, Nat.compare_eq_lt.2 h]
  rfl

theorem order_of_nested (hposition : a.position = b.position) (ha : a.isNested = false) (hb : b.isNested = true) :
    a.order b = .lt := by
  rw [order, hposition, Std.compare_self, ha, hb]
  rfl

theorem order_of_length (hposition : a.position = b.position) (hnested : a.isNested = b.isNested) (h : b.length < a.length) :
    a.order b = .lt := by
  rw [order, hposition, Std.compare_self, hnested, Std.compare_self, Nat.compare_eq_lt.2 h]
  rfl

theorem order_of_rule (hposition : a.position = b.position) (hnested : a.isNested = b.isNested) (hlength : a.length = b.length)
    (h : a.rule.bits < b.rule.bits) : a.order b = .lt := by
  rw [order, hposition, Std.compare_self, hnested, Std.compare_self, hlength, Std.compare_self, Std.compare_eq_lt.2 h]
  rfl

/-- regions in strict order -/
abbrev Sorted (rs : List Region) : Prop := rs.Pairwise fun a b => a.order b = .lt

theorem mem_of_mem_place (h : s ∈ place r rs) : s = r ∨ s ∈ rs := by
  induction rs with
  | nil => exact Or.inl (List.mem_singleton.1 h)
  | cons first rs ih =>
    rw [place] at h
    split at h
    · simpa using h
    · rcases List.mem_cons.1 h with h | h
      · exact Or.inl h
      · exact Or.inr (List.mem_cons_of_mem _ h)
    · rcases List.mem_cons.1 h with h | h
      · exact Or.inr (h ▸ List.mem_cons_self)
      · exact (ih h).imp_right (List.mem_cons_of_mem _)

/-- no place in the order is lost -/
theorem exists_mem_place (h : s = r ∨ s ∈ rs) : ∃ t ∈ place r rs, t.order s = .eq := by
  induction rs with
  | nil =>
    rcases h with rfl | h
    · exact ⟨s, List.mem_singleton_self s, Std.ReflCmp.compare_self⟩
    · cases h
  | cons first rs ih =>
    rw [place]
    split
    · refine ⟨s, ?_, Std.ReflCmp.compare_self⟩
      simpa using h
    · rename_i heq
      simp only [List.mem_cons] at h
      rcases h with rfl | rfl | h
      · exact ⟨s, List.mem_cons_self, Std.ReflCmp.compare_self⟩
      · exact ⟨r, List.mem_cons_self, heq⟩
      · exact ⟨s, List.mem_cons_of_mem _ h, Std.ReflCmp.compare_self⟩
    · simp only [List.mem_cons] at h
      rcases h with rfl | rfl | h
      · obtain ⟨t, ht, htr⟩ := ih (Or.inl rfl)
        exact ⟨t, List.mem_cons_of_mem _ ht, htr⟩
      · exact ⟨s, List.mem_cons_self, Std.ReflCmp.compare_self⟩
      · obtain ⟨t, ht, htr⟩ := ih (Or.inr h)
        exact ⟨t, List.mem_cons_of_mem _ ht, htr⟩

theorem place_sorted (r : Region) (h : Sorted rs) : Sorted (place r rs) := by
  induction rs with
  | nil => exact List.pairwise_singleton _ _
  | cons first rs ih =>
    obtain ⟨hfirst, hrs⟩ := List.pairwise_cons.1 h
    rw [place]
    split
    · rename_i hlt
      refine List.pairwise_cons.2 ⟨?_, h⟩
      intro s hs
      rcases List.mem_cons.1 hs with rfl | hs
      · exact hlt
      · exact Std.TransCmp.lt_trans hlt (hfirst s hs)
    · rename_i heq
      exact List.pairwise_cons.2 ⟨fun s hs => Std.TransCmp.lt_of_eq_of_lt heq (hfirst s hs), hrs⟩
    · rename_i hgt
      refine List.pairwise_cons.2 ⟨?_, ih hrs⟩
      intro s hs
      rcases mem_of_mem_place hs with rfl | hs
      · exact Std.OrientedCmp.lt_of_gt hgt
      · exact hfirst s hs

theorem sort_sorted (rs : List Region) : Sorted (sort rs) := by
  induction rs with
  | nil => exact List.Pairwise.nil
  | cons r rs ih => exact place_sorted r ih

theorem mem_of_mem_sort (h : s ∈ sort rs) : s ∈ rs := by
  induction rs with
  | nil => exact h
  | cons r rs ih =>
    rcases mem_of_mem_place h with rfl | h
    · exact List.mem_cons_self
    · exact List.mem_cons_of_mem _ (ih h)

/-- sorting leaves out a region only for one with the same place in the order -/
theorem exists_mem_sort (h : s ∈ rs) : ∃ t ∈ sort rs, t.order s = .eq := by
  induction rs with
  | nil => cases h
  | cons r rs ih =>
    rcases List.mem_cons.1 h with rfl | h
    · exact exists_mem_place (Or.inl rfl)
    · obtain ⟨t, ht, hts⟩ := ih h
      obtain ⟨u, hu, hut⟩ := exists_mem_place (Or.inr ht)
      exact ⟨u, hu, Std.TransCmp.eq_trans hut hts⟩

/-! ## The outermost regions -/

theorem covers_iff {place : Nat} : r.covers place = true ↔ r.position ≤ place ∧ place < r.stop := by
  simp [covers]

/-- the regions that a sweep keeps, each from where the last one ended -/
def outermost (free : Nat) : List Region → List Region
  | [] => []
  | r :: rest => if free ≤ r.position then r :: outermost r.stop rest else outermost free rest

theorem outermost_disjoint (free : Nat) (rs : List Region) :
    (∀ r ∈ outermost free rs, free ≤ r.position) ∧ (outermost free rs).Pairwise fun a b => a.stop ≤ b.position := by
  induction rs generalizing free with
  | nil => exact ⟨fun _ h => absurd h List.not_mem_nil, List.Pairwise.nil⟩
  | cons r rs ih =>
    rw [outermost]
    split_ifs with hfree
    · obtain ⟨hafter, hpairwise⟩ := ih r.stop
      refine ⟨?_, List.pairwise_cons.2 ⟨hafter, hpairwise⟩⟩
      intro s hs
      rcases List.mem_cons.1 hs with rfl | hs
      · exact hfree
      · calc free ≤ r.position := hfree
          _ ≤ r.stop := Nat.le_add_right _ _
          _ ≤ s.position := hafter s hs
    · exact ih free

/-- what the sweep passes over begins inside something it keeps, or before it started -/
theorem outermost_cover (hsorted : Sorted rs) (hlength : ∀ r ∈ rs, 0 < r.length) (free : Nat) (h : r ∈ rs) :
    r.position < free ∨
      ∃ k ∈ outermost free rs, k.position ≤ r.position ∧ r.position < k.stop ∧ (k = r ∨ k.order r = .lt) := by
  induction rs generalizing free with
  | nil => cases h
  | cons first rs ih =>
    obtain ⟨hfirst, hsorted⟩ := List.pairwise_cons.1 hsorted
    obtain ⟨hpositive, hlength⟩ := List.forall_mem_cons.1 hlength
    rw [outermost]
    split_ifs with hfree
    · refine Or.inr ?_
      rcases List.mem_cons.1 h with rfl | h
      · exact ⟨r, List.mem_cons_self, Nat.le_refl _, Nat.lt_add_of_pos_right hpositive, Or.inl rfl⟩
      · rcases ih hsorted hlength first.stop h with hinside | ⟨k, hk, hcovers⟩
        · exact ⟨first, List.mem_cons_self, position_le_of_order (hfirst r h), hinside, Or.inr (hfirst r h)⟩
        · exact ⟨k, List.mem_cons_of_mem _ hk, hcovers⟩
    · rcases List.mem_cons.1 h with rfl | h
      · exact Or.inl (Nat.lt_of_not_le hfree)
      · exact ih hsorted hlength free h

theorem mem_dropWhile {p : Region → Bool} (h : r ∈ rs) (hp : p r = false) : r ∈ rs.dropWhile p := by
  induction rs with
  | nil => cases h
  | cons first rs ih =>
    rw [List.dropWhile_cons]
    split_ifs with hfirst
    · rcases List.mem_cons.1 h with rfl | h
      · rw [hp] at hfirst
        cases hfirst
      · exact ih h
    · exact h

/-- a region is of some rule -/
def Owned (rs : List Region) : Prop := ∀ r ∈ rs, r.rule ≠ .none

/-- a region without a parent stays exactly if it begins outside of all kept ones -/
theorem fits_of_outermost (hr : r.isNested = false) {enclosing : List Region} (howned : Owned enclosing) :
    r.fits enclosing.head? = enclosing.isEmpty := by
  cases enclosing with
  | nil => simp [fits, hr]
  | cons outer rest =>
    have hparent : r.parent = .none := RuleId.isNone_iff.1 (by simpa [isNested] using hr)
    have howner : r.parent ≠ outer.rule := by
      rw [hparent]
      exact (howned outer List.mem_cons_self).symm
    simp [fits, howner]

/-- **Of the kept regions those without a parent are kept by a single sweep.** The invariant: all regions around the
current place end where the sweep is free at the latest, and one of them ends there as long as that place is ahead. -/
theorem keep_outermost {enclosing : List Region} {free : Nat} (hsorted : Sorted rs) (howned : Owned rs)
    (henclosing : Owned enclosing) (hwithin : ∀ k ∈ enclosing, k.stop ≤ free)
    (hahead : ∀ r ∈ rs, r.position < free → ∃ k ∈ enclosing, k.stop = free) :
    (keep enclosing rs).filter (!·.isNested) = outermost free (rs.filter (!·.isNested)) := by
  induction rs generalizing enclosing free with
  | nil => rfl
  | cons r rs ih =>
    obtain ⟨hfirst, hsorted⟩ := List.pairwise_cons.1 hsorted
    obtain ⟨hr, howned⟩ := List.forall_mem_cons.1 howned
    rw [keep]
    generalize hinner : enclosing.dropWhile (·.stop ≤ r.position) = inner
    have hsub : ∀ k ∈ inner, k ∈ enclosing := by
      intro k hk
      rw [← hinner] at hk
      exact (List.dropWhile_suffix _).subset hk
    -- what encloses the regions behind `r` encloses `r`
    have hstays : ∀ k ∈ enclosing, r.position < k.stop → k ∈ inner := by
      intro k hk hlt
      rw [← hinner]
      exact mem_dropWhile hk (by simpa using hlt)
    have hahead' : ∀ s ∈ rs, s.position < free → ∃ k ∈ inner, k.stop = free := by
      intro s hs hlt
      have hle := position_le_of_order (hfirst s hs)
      obtain ⟨k, hk, hstop⟩ := hahead s (List.mem_cons_of_mem _ hs) hlt
      exact ⟨k, hstays k hk (by omega), hstop⟩
    have hwithin' : ∀ k ∈ inner, k.stop ≤ free := fun k hk => hwithin k (hsub k hk)
    have howned' : Owned inner := fun k hk => henclosing k (hsub k hk)
    by_cases hnested : r.isNested = true
    · -- a nested region ends inside the one that it is nested in, so the invariant stays
      have hskip : ∀ rest : List Region, (r :: rest).filter (!·.isNested) = rest.filter (!·.isNested) :=
        fun rest => List.filter_cons_of_neg (by simp [hnested])
      rw [hskip]
      split_ifs with hfits
      · rw [hskip]
        have hstop : r.stop ≤ free := by
          cases inner with
          | nil => simp [fits, hnested] at hfits
          | cons outer rest =>
            simp only [List.head?_cons, fits, Bool.and_eq_true, decide_eq_true_eq] at hfits
            exact Nat.le_trans hfits.2 (hwithin' outer List.mem_cons_self)
        refine ih hsorted howned (List.forall_mem_cons.2 ⟨hr, howned'⟩) (List.forall_mem_cons.2 ⟨hstop, hwithin'⟩) ?_
        intro s hs hlt
        obtain ⟨k, hk, hkstop⟩ := hahead' s hs hlt
        exact ⟨k, List.mem_cons_of_mem _ hk, hkstop⟩
      · exact ih hsorted howned howned' hwithin' hahead'
    · have hnested : r.isNested = false := by simpa using hnested
      have htake : ∀ rest : List Region, (r :: rest).filter (!·.isNested) = r :: rest.filter (!·.isNested) :=
        fun rest => List.filter_cons_of_pos (by simp [hnested])
      rw [fits_of_outermost hnested howned', htake, outermost]
      by_cases hfree : free ≤ r.position
      · have hempty : inner = [] := by
          rw [← hinner, List.dropWhile_eq_nil_iff]
          intro k hk
          have hstop := hwithin k hk
          simpa using Nat.le_trans hstop hfree
        rw [hempty, if_pos List.isEmpty_nil, if_pos hfree, htake]
        refine congrArg (r :: ·) (ih hsorted howned ?_ ?_ ?_)
        · exact List.forall_mem_singleton.2 hr
        · exact List.forall_mem_singleton.2 (Nat.le_refl _)
        · exact fun s _ _ => ⟨r, List.mem_singleton_self r, rfl⟩
      · obtain ⟨k, hk, hkstop⟩ := hahead r List.mem_cons_self (Nat.lt_of_not_le hfree)
        have hnonempty : inner ≠ [] := List.ne_nil_of_mem (hstays k hk (by omega))
        rw [if_neg (by simpa using hnonempty), if_neg hfree]
        exact ih hsorted howned howned' hwithin' hahead'

/-- the kept regions lie in kept ones without a parent; `outer` are those kept before, around the current place -/
theorem keep_inside {enclosing : List Region} (outer : Region → Prop) (hsorted : Sorted rs)
    (henclosing : ∀ k ∈ enclosing, ∃ o, outer o ∧ o.position ≤ k.position ∧ k.stop ≤ o.stop)
    (hbefore : ∀ k ∈ enclosing, ∀ r ∈ rs, k.position ≤ r.position) (h : r ∈ keep enclosing rs) :
    ∃ o, (outer o ∨ (o ∈ keep enclosing rs ∧ o.isNested = false)) ∧ o.position ≤ r.position ∧ r.stop ≤ o.stop := by
  induction rs generalizing enclosing outer with
  | nil => cases h
  | cons first rs ih =>
    obtain ⟨hfirst, hsorted⟩ := List.pairwise_cons.1 hsorted
    rw [keep] at h ⊢
    generalize hinner : enclosing.dropWhile (·.stop ≤ first.position) = inner at h ⊢
    have hsub : ∀ k ∈ inner, k ∈ enclosing := by
      intro k hk
      rw [← hinner] at hk
      exact (List.dropWhile_suffix _).subset hk
    have henclosing' : ∀ k ∈ inner, ∃ o, outer o ∧ o.position ≤ k.position ∧ k.stop ≤ o.stop :=
      fun k hk => henclosing k (hsub k hk)
    have hbefore' : ∀ k ∈ inner, ∀ r ∈ rs, k.position ≤ r.position :=
      fun k hk r hr => hbefore k (hsub k hk) r (List.mem_cons_of_mem _ hr)
    split_ifs at h ⊢ with hfits
    · -- `first` is inside the innermost region, or the outermost itself
      have hown : ∃ o, (outer o ∨ (o = first ∧ o.isNested = false)) ∧ o.position ≤ first.position ∧ first.stop ≤ o.stop := by
        cases inner with
        | nil => exact ⟨first, Or.inr ⟨rfl, by simpa [fits] using hfits⟩, Nat.le_refl _, Nat.le_refl _⟩
        | cons k rest =>
          simp only [List.head?_cons, fits, Bool.and_eq_true, decide_eq_true_eq] at hfits
          obtain ⟨o, ho, hposition, hstop⟩ := henclosing' k List.mem_cons_self
          have hk := hbefore k (hsub k List.mem_cons_self) first List.mem_cons_self
          exact ⟨o, Or.inl ho, Nat.le_trans hposition hk, Nat.le_trans hfits.2 hstop⟩
      have hweaken : ∀ o, (outer o ∨ (o = first ∧ o.isNested = false)) →
          outer o ∨ (o ∈ first :: keep (first :: inner) rs ∧ o.isNested = false) := by
        rintro o (ho | ⟨rfl, ho⟩)
        · exact Or.inl ho
        · exact Or.inr ⟨List.mem_cons_self, ho⟩
      rcases List.mem_cons.1 h with rfl | h
      · obtain ⟨o, ho, hplace⟩ := hown
        exact ⟨o, hweaken o ho, hplace⟩
      · obtain ⟨o, ho, hplace⟩ := ih (fun o => outer o ∨ (o = first ∧ o.isNested = false)) hsorted
          (List.forall_mem_cons.2 ⟨hown, fun k hk => (henclosing' k hk).imp fun o ho => ⟨Or.inl ho.1, ho.2⟩⟩)
          (List.forall_mem_cons.2 ⟨fun s hs => position_le_of_order (hfirst s hs), hbefore'⟩) h
        rcases ho with ho | ⟨ho, hnested⟩
        · exact ⟨o, hweaken o ho, hplace⟩
        · exact ⟨o, Or.inr ⟨List.mem_cons_of_mem _ ho, hnested⟩, hplace⟩
    · exact ih outer hsorted henclosing' hbefore' h

/-! ## Resolved regions -/

theorem keep_sublist (enclosing rs : List Region) : (keep enclosing rs).Sublist rs := by
  induction rs generalizing enclosing with
  | nil => exact List.Sublist.refl _
  | cons r rs ih =>
    rw [keep]
    split_ifs
    · exact (ih _).cons_cons r
    · exact (ih _).cons r

section Resolved

variable (howned : Owned rs) (hlength : ∀ r ∈ rs, r.isNested = false → 0 < r.length)

/-- the regions that stay of the given ones -/
def resolve (rs : List Region) : List Region := keep [] (sort rs)

theorem mem_of_mem_resolve (h : r ∈ resolve rs) : r ∈ rs := mem_of_mem_sort ((keep_sublist [] (sort rs)).subset h)

include howned

theorem resolve_outermost : (resolve rs).filter (!·.isNested) = outermost 0 ((sort rs).filter (!·.isNested)) :=
  keep_outermost (sort_sorted rs) (fun r hr => howned r (mem_of_mem_sort hr)) (fun _ hk => absurd hk List.not_mem_nil)
    (fun _ hk => absurd hk List.not_mem_nil) fun _ _ hlt => absurd hlt (Nat.not_lt_zero _)

/-- **Kept regions without a parent do not overlap.** -/
theorem resolve_disjoint (ha : a ∈ resolve rs) (hb : b ∈ resolve rs) (ha' : a.isNested = false) (hb' : b.isNested = false)
    (hne : a ≠ b) : a.stop ≤ b.position ∨ b.stop ≤ a.position := by
  have hpairwise := (outermost_disjoint 0 ((sort rs).filter (!·.isNested))).2
  rw [← resolve_outermost howned] at hpairwise
  have happart : ((resolve rs).filter (!·.isNested)).Pairwise fun a b => a.stop ≤ b.position ∨ b.stop ≤ a.position :=
    hpairwise.imp Or.inl
  have hsymmetric : Std.Symm fun a b : Region => a.stop ≤ b.position ∨ b.stop ≤ a.position := ⟨fun _ _ h => h.symm⟩
  exact happart.forall (List.mem_filter.2 ⟨ha, by simp [ha']⟩) (List.mem_filter.2 ⟨hb, by simp [hb']⟩) hne

include hlength

/-- **A region without a parent is kept or begins inside a kept one**, which comes before it. -/
theorem resolve_cover (h : r ∈ rs) (hr : r.isNested = false) :
    ∃ k ∈ resolve rs, k.isNested = false ∧ k.position ≤ r.position ∧ r.position < k.stop ∧
      (k.position = r.position → r.stop ≤ k.stop) := by
  obtain ⟨s, hs, heq⟩ := exists_mem_sort h
  obtain ⟨hposition, hlen, -, hparent⟩ := eq_of_order heq
  have hs' : s ∈ (sort rs).filter (!·.isNested) := List.mem_filter.2 ⟨hs, by simpa [isNested, hparent] using hr⟩
  have hlength' : ∀ t ∈ (sort rs).filter (!·.isNested), 0 < t.length := by
    intro t ht
    obtain ⟨hmem, hnested⟩ := List.mem_filter.1 ht
    exact hlength t (mem_of_mem_sort hmem) (by simpa using hnested)
  rcases outermost_cover ((sort_sorted rs).filter _) hlength' 0 hs' with hbefore | ⟨k, hk, hle, hlt, hfirst⟩
  · exact absurd hbefore (Nat.not_lt_zero _)
  · rw [← resolve_outermost howned, List.mem_filter] at hk
    have hnested : k.isNested = false := by simpa using hk.2
    refine ⟨k, hk.1, hnested, hposition ▸ hle, hposition ▸ hlt, fun hsame => ?_⟩
    have hlonger : s.length ≤ k.length := by
      rcases hfirst with rfl | hfirst
      · exact Nat.le_refl _
      · have hs'' : s.isNested = false := by simpa using (List.mem_filter.1 hs').2
        exact length_le_of_order hfirst (hsame.trans hposition.symm) (hnested.trans hs''.symm)
    simp only [stop]
    omega

omit howned hlength

/-- **A kept region lies inside a kept one without a parent.** -/
theorem resolve_inside (h : r ∈ resolve rs) :
    ∃ k ∈ resolve rs, k.isNested = false ∧ k.position ≤ r.position ∧ r.stop ≤ k.stop := by
  obtain ⟨k, hk | hk, hplace⟩ := keep_inside (fun _ => False) (sort_sorted rs) (fun _ hk => absurd hk List.not_mem_nil)
    (fun _ hk => absurd hk List.not_mem_nil) h
  · cases hk
  · exact ⟨k, hk.1, hk.2, hplace⟩

end Resolved

end Linewise.Region
