/-
Resolved regions are a forest.

Overlap resolution compares a region with the innermost kept one around its beginning only, which it finds on a stack.
The stack holds no more than the kept regions that cover the place (`keep_eq_foldl`), so resolution is a fold: a region
is accepted if it fits in the last kept one that covers its beginning (`accept`). Accepting one keeps the kept regions a
forest (`Forest.accept`), and so does every run of them (`Forest.foldl`): of two kept regions the later one begins behind
the other, or a chain of kept regions leads to it, each nested in the one before (`Encloses`).

Main statement: `removeOverlaps_forest`.
-/
import Mathlib.Logic.Relation
import Linewise.Proofs.Region.Overlap

namespace Linewise.Region

variable {a b k r t : Region} {rs kept : List Region} {place : Nat}

/-! ## Nested regions -/

/-- the region lies inside `k` -/
def LiesIn (r k : Region) : Prop := k.position ≤ r.position ∧ r.stop ≤ k.stop

/-- the region lies inside `k` and comes after it, and `k` is of its parent rule -/
structure NestedIn (r k : Region) : Prop where
  after : k.order r = .lt
  inside : r.LiesIn k
  parent : r.parent = k.rule

/-- a chain of regions of the list leads from one to the other, each nested in the one before -/
def Encloses (rs : List Region) : Region → Region → Prop :=
  Relation.TransGen fun k r => k ∈ rs ∧ r ∈ rs ∧ r.NestedIn k

theorem LiesIn.trans (h : r.LiesIn k) (h' : k.LiesIn t) : r.LiesIn t :=
  ⟨Nat.le_trans h'.1 h.1, Nat.le_trans h.2 h'.2⟩

theorem order_irrefl (r : Region) : r.order r ≠ .lt := by
  rw [show r.order r = .eq from Std.ReflCmp.compare_self]
  simp

/-- what relates the regions as they stand in a sorted list relates them as they are ordered -/
theorem Sorted.rel_of_lt {R : Region → Region → Prop} (hsorted : Sorted rs) (hR : rs.Pairwise R) (ha : a ∈ rs) (hb : b ∈ rs)
    (hlt : a.order b = .lt) : R a b := by
  obtain ⟨front, back, rfl⟩ := List.append_of_mem ha
  obtain ⟨-, hR, -⟩ := List.pairwise_append.1 hR
  obtain ⟨-, -, hsorted⟩ := List.pairwise_append.1 hsorted
  rcases List.mem_append.1 hb with hb | hb
  · have hba := hsorted b hb a List.mem_cons_self
    exact absurd (Std.TransCmp.lt_trans hlt hba) (order_irrefl a)
  · rcases List.mem_cons.1 hb with rfl | hb
    · exact absurd hlt (order_irrefl b)
    · exact (List.pairwise_cons.1 hR).1 b hb

theorem Sorted.lt_or_gt (hsorted : Sorted rs) (ha : a ∈ rs) (hb : b ∈ rs) (hne : a ≠ b) : a.order b = .lt ∨ b.order a = .lt := by
  have hsymmetric : Std.Symm fun a b : Region => a.order b = .lt ∨ b.order a = .lt := ⟨fun _ _ h => h.symm⟩
  have hrelated : rs.Pairwise fun a b => a.order b = .lt ∨ b.order a = .lt := hsorted.imp Or.inl
  exact hrelated.forall ha hb hne

namespace Encloses

theorem mem (h : Encloses rs a b) : a ∈ rs ∧ b ∈ rs := by
  induction h with
  | single hlink => exact ⟨hlink.1, hlink.2.1⟩
  | tail _ hlink ih => exact ⟨ih.1, hlink.2.1⟩

theorem tail (h : Encloses rs a k) (hr : r ∈ rs) (hnested : r.NestedIn k) : Encloses rs a r :=
  Relation.TransGen.tail h ⟨h.mem.2, hr, hnested⟩

theorem mono {more : List Region} (hsub : ∀ r ∈ rs, r ∈ more) (h : Encloses rs a b) : Encloses more a b := by
  induction h with
  | single hlink => exact .single ⟨hsub _ hlink.1, hsub _ hlink.2.1, hlink.2.2⟩
  | tail _ hlink ih => exact ih.tail (hsub _ hlink.2.1) hlink.2.2

theorem order_lt (h : Encloses rs a b) : a.order b = .lt := by
  induction h with
  | single hlink => exact hlink.2.2.after
  | tail _ hlink ih => exact Std.TransCmp.lt_trans ih hlink.2.2.after

theorem liesIn (h : Encloses rs a b) : b.LiesIn a := by
  induction h with
  | single hlink => exact hlink.2.2.inside
  | tail _ hlink ih => exact hlink.2.2.inside.trans ih

end Encloses

/-! ## The stack -/

/-- the last of the regions that cover a place -/
def innermost? (rs : List Region) (place : Nat) : Option Region := (rs.filter (·.covers place)).getLast?

/-- keep a region if it fits in the innermost kept one that covers its beginning -/
def accept (kept : List Region) (r : Region) : List Region :=
  if r.fits (innermost? kept r.position) then kept ++ [r] else kept

theorem dropWhile_stop_stop {p q : Nat} (hpq : p ≤ q) (rs : List Region) :
    (rs.dropWhile (·.stop ≤ p)).dropWhile (·.stop ≤ q) = rs.dropWhile (·.stop ≤ q) := by
  induction rs with
  | nil => rfl
  | cons r rs ih =>
    by_cases hp : r.stop ≤ p
    · have hq : r.stop ≤ q := Nat.le_trans hp hpq
      rw [List.dropWhile_cons_of_pos (by simpa using hp), List.dropWhile_cons_of_pos (by simpa using hq), ih]
    · rw [List.dropWhile_cons_of_neg (by simpa using hp)]

/-- a region that fits in the innermost one of the stack ends before any of the stack can be dropped -/
theorem dropWhile_of_fits {inner : List Region} (hfits : r.fits inner.head? = true) (hplace : place < r.stop) :
    inner.dropWhile (·.stop ≤ place) = inner := by
  cases inner with
  | nil => rfl
  | cons outer rest =>
    simp only [List.head?_cons, fits, Bool.and_eq_true, decide_eq_true_eq] at hfits
    have hstop : ¬ outer.stop ≤ place := Nat.not_le.2 (Nat.lt_of_lt_of_le hplace hfits.2)
    exact List.dropWhile_cons_of_neg (by simpa using hstop)

/-- **The stack holds the kept regions that cover the place.** The invariant says so of every place that is still to
come: once the regions that end before it are dropped, what is left are the kept ones that cover it, innermost first. -/
theorem keep_eq_foldl {enclosing : List Region} (hsorted : Sorted rs)
    (hbefore : ∀ k ∈ kept, ∀ r ∈ rs, k.position ≤ r.position)
    (hstack : ∀ r ∈ rs, enclosing.dropWhile (·.stop ≤ r.position) = (kept.filter (·.covers r.position)).reverse) :
    kept ++ keep enclosing rs = rs.foldl accept kept := by
  induction rs generalizing enclosing kept with
  | nil => exact List.append_nil kept
  | cons r rs ih =>
    obtain ⟨hfirst, hsorted⟩ := List.pairwise_cons.1 hsorted
    have hle : ∀ s ∈ rs, r.position ≤ s.position := fun s hs => position_le_of_order (hfirst s hs)
    have hbefore' : ∀ k ∈ kept, ∀ s ∈ rs, k.position ≤ s.position :=
      fun k hk s hs => hbefore k hk s (List.mem_cons_of_mem _ hs)
    have hinner := hstack r List.mem_cons_self
    have hlater : ∀ s ∈ rs, (enclosing.dropWhile (·.stop ≤ r.position)).dropWhile (·.stop ≤ s.position) =
        (kept.filter (·.covers s.position)).reverse := by
      intro s hs
      rw [dropWhile_stop_stop (hle s hs)]
      exact hstack s (List.mem_cons_of_mem _ hs)
    rw [keep, List.foldl_cons, accept]
    generalize enclosing.dropWhile (·.stop ≤ r.position) = inner at hinner hlater ⊢
    have htop : innermost? kept r.position = inner.head? := by rw [innermost?, hinner, List.head?_reverse]
    rw [htop]
    split_ifs with hfits
    · rw [← ih hsorted, List.append_assoc, List.singleton_append]
      · intro k hk s hs
        rcases List.mem_append.1 hk with hk | hk
        · exact hbefore' k hk s hs
        · rw [List.mem_singleton.1 hk]
          exact hle s hs
      · intro s hs
        rw [List.filter_append, List.reverse_append, ← hlater s hs]
        by_cases hstop : r.stop ≤ s.position
        · have hcovers : r.covers s.position = false := by simp [covers, hstop]
          rw [List.dropWhile_cons_of_pos (by simpa using hstop)]
          simp [hcovers]
        · have hcovers : r.covers s.position = true := covers_iff.2 ⟨hle s hs, Nat.lt_of_not_le hstop⟩
          rw [List.dropWhile_cons_of_neg (by simpa using hstop), dropWhile_of_fits hfits (Nat.lt_of_not_le hstop)]
          simp [hcovers]
    · exact ih hsorted hbefore' hlater

theorem resolved_eq_foldl (hsorted : Sorted rs) : keep [] rs = rs.foldl accept [] :=
  keep_eq_foldl hsorted (fun _ hk => absurd hk List.not_mem_nil) fun _ _ => rfl

/-! ## Accepting regions -/

theorem innermost?_some (h : innermost? rs place = some t) : t ∈ rs ∧ t.covers place = true :=
  List.mem_filter.1 (List.mem_of_getLast? h)

theorem innermost?_none (h : innermost? rs place = none) (hr : r ∈ rs) : r.covers place = false := by
  rw [innermost?, List.getLast?_eq_none_iff, List.filter_eq_nil_iff] at h
  simpa using h r hr

theorem innermost?_isSome_iff : (innermost? rs place).isSome = true ↔ ∃ r ∈ rs, r.covers place = true := by
  constructor
  · intro h
    obtain ⟨r, hr⟩ := Option.isSome_iff_exists.1 h
    exact ⟨r, innermost?_some hr⟩
  · rintro ⟨r, hr, hcovers⟩
    rw [Option.isSome_iff_ne_none]
    intro hnone
    rw [innermost?_none hnone hr] at hcovers
    cases hcovers

/-- the last region that covers a place is related to the others that do as they stand in the list -/
theorem innermost?_rel {R : Region → Region → Prop} (hR : rs.Pairwise R) (ht : innermost? rs place = some t) (ha : a ∈ rs)
    (hplace : a.covers place = true) : a = t ∨ R a t := by
  obtain ⟨front, hfront⟩ := List.getLast?_eq_some_iff.1 ht
  have hcovering := hR.filter (·.covers place)
  have hmem : a ∈ rs.filter (·.covers place) := List.mem_filter.2 ⟨ha, hplace⟩
  rw [hfront] at hcovering hmem
  rcases List.mem_append.1 hmem with hmem | hmem
  · exact Or.inr ((List.pairwise_append.1 hcovering).2.2 a hmem t (List.mem_singleton_self t))
  · exact Or.inl (List.mem_singleton.1 hmem)

theorem stop_le_of_not_covers (h : r.covers place = false) (hplace : r.position ≤ place) : r.stop ≤ place := by
  simpa [covers, hplace] using h

/-- regions of which a later one begins behind an earlier one or is enclosed by it, and those with a parent are nested in
one of them -/
structure Forest (rs : List Region) : Prop where
  related : rs.Pairwise fun a b => a.stop ≤ b.position ∨ Encloses rs a b
  nested : ∀ r ∈ rs, r.isNested = true → ∃ k ∈ rs, r.NestedIn k
  apart : rs.Pairwise fun a b => b.isNested = false → a.stop ≤ b.position

namespace Forest

theorem not_apart (hplace : a.covers place = true) (hplace' : b.covers place = true) : ¬ a.stop ≤ b.position := by
  rw [covers_iff] at hplace hplace'
  omega

/-- the innermost region that covers a place is enclosed by all others that do -/
theorem encloses_innermost (h : Forest rs) (ht : innermost? rs place = some t) (ha : a ∈ rs) (hplace : a.covers place = true) :
    a = t ∨ Encloses rs a t :=
  (innermost?_rel h.related ht ha hplace).imp_right fun hrelated =>
    hrelated.resolve_left (not_apart hplace (innermost?_some ht).2)

/-- of two regions that cover a place the one that comes first encloses the other -/
theorem encloses_of_covers (h : Forest rs) (hsorted : Sorted rs) (ha : a ∈ rs) (hb : b ∈ rs) (hlt : a.order b = .lt)
    (hplace : a.covers place = true) (hplace' : b.covers place = true) : Encloses rs a b :=
  (hsorted.rel_of_lt h.related ha hb hlt).resolve_left (not_apart hplace hplace')

theorem innermost?_eq_some_iff (h : Forest rs) : innermost? rs place = some r ↔
    r ∈ rs ∧ r.covers place = true ∧ ∀ k ∈ rs, k.covers place = true → k = r ∨ Encloses rs k r := by
  constructor
  · intro hr
    obtain ⟨hmem, hcovers⟩ := innermost?_some hr
    exact ⟨hmem, hcovers, fun k hk hplace => h.encloses_innermost hr hk hplace⟩
  · rintro ⟨hmem, hcovers, hall⟩
    cases ht : innermost? rs place with
    | none => simp [innermost?_none ht hmem] at hcovers
    | some t =>
      obtain ⟨ht', hplace⟩ := innermost?_some ht
      rcases h.encloses_innermost ht hmem hcovers with rfl | hrt
      · rfl
      · rcases hall t ht' hplace with rfl | htr
        · rfl
        · exact absurd (Std.TransCmp.lt_trans hrt.order_lt htr.order_lt) (order_irrefl r)

/-- a region that fits behind the others keeps them a forest. What covers its beginning encloses the innermost region
there, in which it is nested; all else ends before it. -/
theorem append (h : Forest kept) (howned : Owned kept) (hafter : ∀ k ∈ kept, k.order r = .lt)
    (hfits : r.fits (innermost? kept r.position) = true) : Forest (kept ++ [r]) := by
  have hsub : ∀ k ∈ kept, k ∈ kept ++ [r] := fun k hk => List.mem_append_left _ hk
  have hr : r ∈ kept ++ [r] := List.mem_append_right _ (List.mem_singleton_self r)
  have hrelated : kept.Pairwise fun a b => a.stop ≤ b.position ∨ Encloses (kept ++ [r]) a b :=
    h.related.imp fun hab => hab.imp_right (Encloses.mono hsub)
  have hnested : ∀ s ∈ kept, s.isNested = true → ∃ k ∈ kept ++ [r], s.NestedIn k := by
    intro s hs hparent
    obtain ⟨k, hk, hsk⟩ := h.nested s hs hparent
    exact ⟨k, hsub k hk, hsk⟩
  have hbehind : ∀ k ∈ kept, k.covers r.position = false → k.stop ≤ r.position :=
    fun k hk hcovers => stop_le_of_not_covers hcovers (position_le_of_order (hafter k hk))
  cases ht : innermost? kept r.position with
  | none =>
    have hall : ∀ k ∈ kept, k.stop ≤ r.position := fun k hk => hbehind k hk (innermost?_none ht hk)
    rw [ht] at hfits
    have htop : r.isNested = false := by simpa [fits] using hfits
    refine ⟨List.pairwise_append.2 ⟨hrelated, List.pairwise_singleton _ _, ?_⟩,
      List.forall_mem_append.2 ⟨hnested, List.forall_mem_singleton.2 ?_⟩,
      List.pairwise_append.2 ⟨h.apart, List.pairwise_singleton _ _, ?_⟩⟩
    · intro k hk s hs
      rw [List.mem_singleton.1 hs]
      exact Or.inl (hall k hk)
    · intro hparent
      rw [htop] at hparent
      cases hparent
    · intro k hk s hs _
      rw [List.mem_singleton.1 hs]
      exact hall k hk
  | some t =>
    obtain ⟨ht', hcovers⟩ := innermost?_some ht
    rw [ht] at hfits
    simp only [fits, Bool.and_eq_true, beq_iff_eq, decide_eq_true_eq] at hfits
    have hin : r.NestedIn t := ⟨hafter t ht', ⟨(covers_iff.1 hcovers).1, hfits.2⟩, hfits.1⟩
    have hparent : r.isNested = true := by
      have hne : r.parent ≠ .none := hfits.1 ▸ howned t ht'
      simpa [isNested, ← RuleId.isNone_iff] using hne
    refine ⟨List.pairwise_append.2 ⟨hrelated, List.pairwise_singleton _ _, ?_⟩,
      List.forall_mem_append.2 ⟨hnested, List.forall_mem_singleton.2 fun _ => ⟨t, hsub t ht', hin⟩⟩,
      List.pairwise_append.2 ⟨h.apart, List.pairwise_singleton _ _, ?_⟩⟩
    · intro k hk s hs
      rw [List.mem_singleton.1 hs]
      by_cases hplace : k.covers r.position = true
      · refine Or.inr ?_
        rcases h.encloses_innermost ht hk hplace with rfl | hkt
        · exact .single ⟨hsub k hk, hr, hin⟩
        · exact (hkt.mono hsub).tail hr hin
      · exact Or.inl (hbehind k hk (by simpa using hplace))
    · intro k _ s hs htop
      rw [List.mem_singleton.1 hs, hparent] at htop
      cases htop

/-- **Accepting a region keeps them a forest.** -/
theorem accept (h : Forest kept) (howned : Owned kept) (hafter : ∀ k ∈ kept, k.order r = .lt) :
    Forest (Region.accept kept r) := by
  rw [Region.accept]
  split_ifs with hfits
  · exact h.append howned hafter hfits
  · exact h

end Forest

theorem accept_subset (hr : r ∈ accept kept t) : r ∈ kept ∨ r = t := by
  rw [accept] at hr
  split_ifs at hr
  · simpa using hr
  · exact Or.inl hr

/-- **A run keeps the regions a forest.** -/
theorem Forest.foldl (h : Forest kept) (howned : Owned kept) (howned' : Owned rs) (hsorted : Sorted rs)
    (hafter : ∀ k ∈ kept, ∀ r ∈ rs, k.order r = .lt) : Forest (rs.foldl Region.accept kept) := by
  induction rs generalizing kept with
  | nil => exact h
  | cons r rs ih =>
    obtain ⟨hfirst, hsorted⟩ := List.pairwise_cons.1 hsorted
    obtain ⟨hr, howned'⟩ := List.forall_mem_cons.1 howned'
    refine ih (h.accept howned fun k hk => hafter k hk r List.mem_cons_self) ?_ howned' hsorted ?_
    · intro k hk
      rcases accept_subset hk with hk | rfl
      · exact howned k hk
      · exact hr
    · intro k hk s hs
      rcases accept_subset hk with hk | rfl
      · exact hafter k hk s (List.mem_cons_of_mem _ hs)
      · exact hfirst s hs

theorem forest_keep (hsorted : Sorted rs) (howned : Owned rs) : Forest (keep [] rs) := by
  rw [resolved_eq_foldl hsorted]
  have hempty : Forest [] := ⟨.nil, fun _ hr => absurd hr List.not_mem_nil, .nil⟩
  exact hempty.foldl (fun _ hr => absurd hr List.not_mem_nil) howned hsorted fun _ hk => absurd hk List.not_mem_nil

/-! ## What is accepted -/

/-- the regions of the list that come before one -/
def before (rs : List Region) (r : Region) : List Region := rs.filter (·.order r == .lt)

theorem foldl_accept (kept rs : List Region) : ∃ more, rs.foldl accept kept = kept ++ more ∧ more.Sublist rs := by
  induction rs generalizing kept with
  | nil => exact ⟨[], (List.append_nil kept).symm, .refl _⟩
  | cons r rs ih =>
    rw [List.foldl_cons, accept]
    split_ifs
    · obtain ⟨more, hmore, hsub⟩ := ih (kept ++ [r])
      exact ⟨r :: more, by rw [hmore, List.append_assoc, List.singleton_append], hsub.cons_cons r⟩
    · obtain ⟨more, hmore, hsub⟩ := ih kept
      exact ⟨more, hmore, hsub.cons r⟩

theorem before_append {early late : List Region} (hearly : ∀ k ∈ early, k.order r = .lt)
    (hlate : ∀ k ∈ late, k.order r ≠ .lt) : before (early ++ late) r = early := by
  have hall : early.filter (·.order r == .lt) = early := List.filter_eq_self.2 fun k hk => by simpa using hearly k hk
  have hnone : late.filter (·.order r == .lt) = [] := List.filter_eq_nil_iff.2 fun k hk => by simpa using hlate k hk
  rw [before, List.filter_append, hall, hnone, List.append_nil]

/-- **A region stays exactly if it fits** in the innermost of the kept regions before it that cover its beginning. -/
theorem mem_keep_iff (hsorted : Sorted rs) (hr : r ∈ rs) :
    r ∈ keep [] rs ↔ r.fits (innermost? (before (keep [] rs) r) r.position) = true := by
  obtain ⟨front, back, rfl⟩ := List.append_of_mem hr
  obtain ⟨-, hback, hfront⟩ := List.pairwise_append.1 hsorted
  obtain ⟨early, hearly, hearly'⟩ := foldl_accept [] front
  obtain ⟨late, hlate, hlate'⟩ := foldl_accept (accept early r) back
  rw [List.nil_append] at hearly
  rw [resolved_eq_foldl hsorted, List.foldl_append, List.foldl_cons, hearly, hlate, accept]
  have hlt : ∀ k ∈ early, k.order r = .lt := fun k hk => hfront k (hearly'.subset hk) r List.mem_cons_self
  have hgt : ∀ k ∈ late, k.order r ≠ .lt := by
    intro k hk hkr
    have hrk := (List.pairwise_cons.1 hback).1 k (hlate'.subset hk)
    exact order_irrefl r (Std.TransCmp.lt_trans hrk hkr)
  split_ifs with hfits
  · rw [List.append_assoc, List.singleton_append,
      before_append hlt (List.forall_mem_cons.2 ⟨order_irrefl r, hgt⟩)]
    simpa using hfits
  · rw [before_append hlt hgt]
    refine iff_of_false ?_ hfits
    intro hmem
    rcases List.mem_append.1 hmem with hmem | hmem
    · exact order_irrefl r (hlt r hmem)
    · exact order_irrefl r ((List.pairwise_cons.1 hback).1 r (hlate'.subset hmem))

/-- regions that begin behind a place need not be looked at to find those that cover it -/
theorem filter_takeWhile (hsorted : Sorted rs) (place : Nat) :
    (rs.takeWhile (·.position ≤ place)).filter (·.covers place) = rs.filter (·.covers place) := by
  induction rs with
  | nil => rfl
  | cons r rs ih =>
    obtain ⟨hfirst, hsorted⟩ := List.pairwise_cons.1 hsorted
    by_cases hr : r.position ≤ place
    · rw [List.takeWhile_cons_of_pos (by simpa using hr), List.filter_cons, List.filter_cons, ih hsorted]
    · have hnone : ∀ s ∈ r :: rs, s.covers place = false := by
        intro s hs
        have hle : r.position ≤ s.position := by
          rcases List.mem_cons.1 hs with rfl | hs
          · exact Nat.le_refl _
          · exact position_le_of_order (hfirst s hs)
        have hbehind : ¬ s.position ≤ place := by omega
        simp [covers, hbehind]
      rw [List.takeWhile_cons_of_neg (by simpa using hr), List.filter_nil, eq_comm, List.filter_eq_nil_iff]
      intro s hs
      simp [hnone s hs]

end Linewise.Region

namespace Linewise.RegionSet

open Region

variable {set : RegionSet}

theorem regionAt?_eq (hsorted : Sorted set.regions) (place : Nat) :
    set.regionAt? place = innermost? set.regions place := by
  rw [regionAt?, innermost?, filter_takeWhile hsorted]

/-- **Resolved regions are a forest.** The regions of a set stand in strict order. Of two kept ones the later begins behind
the other, or lies inside it with a chain of kept regions between them, each nested in the one before. A kept region with
a parent lies inside one of that rule, and one without a parent overlaps none that comes before it. So the region found
at a place is the one that covers it and lies inside all others that do. And no region is dropped without need: one stays
exactly if it fits in the innermost kept region around its beginning. -/
theorem removeOverlaps_forest (hsorted : Sorted set.regions) (howned : Owned set.regions) :
    (set.removeOverlaps.regions.Pairwise fun a b =>
        a.stop ≤ b.position ∨ b.LiesIn a ∧ Encloses set.removeOverlaps.regions a b) ∧
      (∀ r ∈ set.removeOverlaps.regions, r.parent ≠ .none →
        ∃ k ∈ set.removeOverlaps.regions, k.rule = r.parent ∧ r.LiesIn k) ∧
      (set.removeOverlaps.regions.Pairwise fun a b => b.parent = .none → a.stop ≤ b.position) ∧
      (∀ place, ((set.removeOverlaps.regionAt? place).isSome = true ↔
          ∃ r ∈ set.removeOverlaps.regions, r.covers place = true) ∧
        ∀ r, set.removeOverlaps.regionAt? place = some r ↔
          r ∈ set.removeOverlaps.regions ∧ r.covers place = true ∧ ∀ k ∈ set.removeOverlaps.regions,
            k.covers place = true → k = r ∨ r.LiesIn k ∧ Encloses set.removeOverlaps.regions k r) ∧
      ∀ r ∈ set.regions, r ∈ set.removeOverlaps.regions ↔
        r.fits (innermost? (before set.removeOverlaps.regions r) r.position) = true := by
  have hforest : Forest set.removeOverlaps.regions := forest_keep hsorted howned
  have hkept : Sorted set.removeOverlaps.regions := hsorted.sublist (keep_sublist [] set.regions)
  have hlies : ∀ {k r}, Encloses set.removeOverlaps.regions k r ↔
      r.LiesIn k ∧ Encloses set.removeOverlaps.regions k r :=
    ⟨fun h => ⟨h.liesIn, h⟩, And.right⟩
  refine ⟨?_, ?_, ?_, fun place => ⟨?_, fun r => ?_⟩, fun r hr => mem_keep_iff hsorted hr⟩
  · simpa only [← hlies] using hforest.related
  · intro r hr hparent
    obtain ⟨k, hk, hin⟩ := hforest.nested r hr (by simpa [isNested, ← RuleId.isNone_iff] using hparent)
    exact ⟨k, hk, hin.parent.symm, hin.inside⟩
  · refine hforest.apart.imp fun hapart hparent => hapart ?_
    simpa [isNested] using RuleId.isNone_iff.2 hparent
  · rw [regionAt?_eq hkept]
    exact innermost?_isSome_iff
  · rw [regionAt?_eq hkept, hforest.innermost?_eq_some_iff]
    simp only [← hlies]

/-- three levels of nesting with a region that overlaps them and an empty one: what the outermost one is told to enclose
at the place is the innermost one there -/
theorem removeOverlaps_forest_three_levels :
    let outer : Region := ⟨0, 10, ⟨1⟩, .none, .none, 0⟩
    let middle : Region := ⟨2, 6, ⟨2⟩, ⟨1⟩, .none, 0⟩
    let inner : Region := ⟨2, 6, ⟨8⟩, ⟨2⟩, .none, 0⟩
    let set : RegionSet := .ofList [inner, ⟨4, 8, ⟨4⟩, .none, .none, 0⟩, ⟨3, 0, ⟨4⟩, .none, .none, 0⟩, middle, outer]
    set.removeOverlaps.regions = [outer, middle, inner] ∧ set.removeOverlaps.regionAt? 3 = some inner ∧
      Encloses set.removeOverlaps.regions outer inner := by
  intro outer middle inner set
  have howned : Owned set.regions := by
    unfold Owned
    decide
  have hinner : set.removeOverlaps.regionAt? 3 = some inner := by decide
  obtain ⟨-, -, -, hat, -⟩ := removeOverlaps_forest (sort_sorted _) howned
  obtain ⟨-, -, hall⟩ := ((hat 3).2 inner).1 hinner
  refine ⟨by decide, hinner, ?_⟩
  rcases hall outer (by decide) (by decide) with hsame | ⟨-, hencloses⟩
  · exact absurd hsame (by decide)
  · exact hencloses

end Linewise.RegionSet
