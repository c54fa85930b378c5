/-
Overlap resolution is greedy, and resolves once and for all.

As a fold over the regions (`accept`), resolution looks back at kept regions only. So a dropped region, though it may take
regions off the stack, is as good as absent: leaving it out changes nothing for those behind it, and a second run accepts
what the first did (`foldl_accept_again`). A region without a parent is dropped only for a kept one that begins before it
and holds its beginning (`dropped_iff_covered`), and no dropped region can be put back (`foldl_accept_maximal`).

Main statement: `removeOverlaps_greedy`.
-/
import Linewise.Proofs.Region.Forest

namespace Linewise.Region

variable {r : Region} {rs kept more other : List Region}

/-- **What was accepted is accepted again**, without the regions that were not. -/
theorem foldl_accept_again (h : rs.foldl accept kept = kept ++ more) : more.foldl accept kept = kept ++ more := by
  induction rs generalizing kept more with
  | nil =>
    obtain rfl : more = [] := by simpa using h.symm
    exact (List.append_nil kept).symm
  | cons r rs ih =>
    by_cases hfits : r.fits (innermost? kept r.position) = true
    · have haccept : accept kept r = kept ++ [r] := if_pos hfits
      rw [List.foldl_cons, haccept] at h
      obtain ⟨later, hlater, -⟩ := foldl_accept (kept ++ [r]) rs
      have hmore : more = r :: later := by
        rw [hlater, List.append_assoc] at h
        exact (List.append_cancel_left h).symm
      rw [hmore, List.foldl_cons, haccept, ih hlater, List.append_assoc, List.singleton_append]
    · have haccept : accept kept r = kept := if_neg hfits
      rw [List.foldl_cons, haccept] at h
      exact ih h

theorem keep_keep (hsorted : Sorted rs) : keep [] (keep [] rs) = keep [] rs := by
  have hkept : Sorted (keep [] rs) := hsorted.sublist (keep_sublist [] rs)
  rw [resolved_eq_foldl hkept]
  exact foldl_accept_again (resolved_eq_foldl hsorted).symm

/-- **A region without a parent is dropped exactly if it begins inside a kept one that comes before it.** -/
theorem dropped_iff_covered (hsorted : Sorted rs) (howned : Owned rs) (hr : r ∈ rs) (htop : r.isNested = false) :
    r ∉ keep [] rs ↔ ∃ k ∈ keep [] rs, k.order r = .lt ∧ k.covers r.position = true := by
  set covering := (before (keep [] rs) r).filter (·.covers r.position)
  have hmem : ∀ k, k ∈ covering ↔ k ∈ keep [] rs ∧ k.order r = .lt ∧ k.covers r.position = true := by
    intro k
    simp only [covering, before, List.mem_filter, beq_iff_eq, and_assoc]
  have howned' : Owned covering.reverse := by
    intro k hk
    exact howned k ((keep_sublist [] rs).subset ((hmem k).1 (List.mem_reverse.1 hk)).1)
  -- a region of some rule is no parent of one without a parent, so `r` fits only where there is none
  have hfits : r.fits (innermost? (before (keep [] rs) r) r.position) = covering.isEmpty := by
    rw [innermost?, ← List.head?_reverse, fits_of_outermost htop howned', List.isEmpty_reverse]
  rw [mem_keep_iff hsorted hr, hfits, List.isEmpty_iff, List.eq_nil_iff_forall_not_mem]
  simp only [hmem, not_forall, not_not]

/-- no region can be put back: the regions of the list that are accepted one and all, those kept among them, are those kept.
The induction is on the regions left out. -/
theorem foldl_accept_maximal (hsub : other.Sublist rs) (hsorted : Sorted rs)
    (hafter : ∀ k ∈ kept, ∀ r ∈ rs, k.order r = .lt) (hall : other.foldl accept kept = kept ++ other)
    (hkept : ∀ r ∈ rs.foldl accept kept, r ∈ kept ++ other) : rs.foldl accept kept = kept ++ other := by
  induction hsub generalizing kept with
  | slnil => exact (List.append_nil kept).symm
  | @cons other rs r hsub ih =>
    obtain ⟨hfirst, hsorted⟩ := List.pairwise_cons.1 hsorted
    have hrejected : accept kept r = kept := by
      refine if_neg fun hfits => ?_
      have haccept : accept kept r = kept ++ [r] := if_pos hfits
      obtain ⟨later, hlater, -⟩ := foldl_accept (kept ++ [r]) rs
      have hin : r ∈ kept ++ other := hkept r (by rw [List.foldl_cons, haccept, hlater]; simp)
      rcases List.mem_append.1 hin with hin | hin
      · exact order_irrefl r (hafter r hin r List.mem_cons_self)
      · exact order_irrefl r (hfirst r (hsub.subset hin))
    rw [List.foldl_cons, hrejected] at hkept ⊢
    exact ih hsorted (fun k hk s hs => hafter k hk s (List.mem_cons_of_mem _ hs)) hall hkept
  | @cons_cons other rs r hsub ih =>
    obtain ⟨hfirst, hsorted⟩ := List.pairwise_cons.1 hsorted
    have haccept : accept kept r = kept ++ [r] := by
      refine if_pos ?_
      by_contra hfits
      have hrejected : accept kept r = kept := if_neg hfits
      obtain ⟨later, hlater, hshort⟩ := foldl_accept kept other
      rw [List.foldl_cons, hrejected, hlater] at hall
      have hlength := hshort.length_le
      rw [List.append_cancel_left hall, List.length_cons] at hlength
      exact absurd hlength (Nat.not_succ_le_self _)
    have hsame : kept ++ r :: other = kept ++ [r] ++ other := by simp
    rw [List.foldl_cons, haccept] at hall hkept ⊢
    rw [hsame] at hall hkept ⊢
    refine ih hsorted ?_ hall hkept
    intro k hk s hs
    rcases List.mem_append.1 hk with hk | hk
    · exact hafter k hk s (List.mem_cons_of_mem _ hs)
    · rw [List.mem_singleton.1 hk]
      exact hfirst s hs

theorem eq_keep_of_keep_eq (hsorted : Sorted rs) (hsub : other.Sublist rs) (hkept : ∀ r ∈ keep [] rs, r ∈ other)
    (hfixed : keep [] other = other) : other = keep [] rs := by
  rw [resolved_eq_foldl (hsorted.sublist hsub)] at hfixed
  rw [resolved_eq_foldl hsorted] at hkept ⊢
  exact (foldl_accept_maximal hsub hsorted (fun _ hk => absurd hk List.not_mem_nil) hfixed hkept).symm

end Linewise.Region

namespace Linewise.RegionSet

open Region

variable {set : RegionSet}

/-- **Overlap resolution is greedy.** The regions of a set stand in strict order, and each is of some rule. Resolution keeps
some of them, in order, and the ranges open at the ends of the line. A region without a parent is dropped exactly if it
begins inside a kept one that comes before it. No more can be kept: a part of the set that holds the kept regions and has
nothing left to resolve is made up of the kept regions. And resolving overlaps again changes nothing. -/
theorem removeOverlaps_greedy (hsorted : Sorted set.regions) (howned : Owned set.regions) :
    set.removeOverlaps.regions.Sublist set.regions ∧
    (set.removeOverlaps.incoming = set.incoming ∧ set.removeOverlaps.outgoing = set.outgoing) ∧
    (∀ r ∈ set.regions, r.parent = .none → (r ∉ set.removeOverlaps.regions ↔
      ∃ k ∈ set.removeOverlaps.regions, k.order r = .lt ∧ k.covers r.position = true)) ∧
    (∀ other : RegionSet, other.regions.Sublist set.regions → (∀ r ∈ set.removeOverlaps.regions, r ∈ other.regions) →
      other.removeOverlaps = other → other.regions = set.removeOverlaps.regions) ∧
    set.removeOverlaps.removeOverlaps = set.removeOverlaps := by
  refine ⟨keep_sublist [] set.regions, ⟨rfl, rfl⟩, ?_, ?_, ?_⟩
  · intro r hr hparent
    refine dropped_iff_covered hsorted howned hr ?_
    simpa [isNested] using RuleId.isNone_iff.2 hparent
  · intro other hsub hkept hfixed
    exact eq_keep_of_keep_eq hsorted hsub hkept (congrArg RegionSet.regions hfixed)
  · exact congrArg (fun regions => { set with regions }) (keep_keep hsorted)

/-- a region that overlaps a nested one and its parent, an orphan, and an empty region: what begins inside the first region
is dropped for it, and what is left stays -/
theorem removeOverlaps_greedy_orphan :
    let outer : Region := ⟨0, 10, ⟨1⟩, .none, .none, 0⟩
    let overlapping : Region := ⟨4, 8, ⟨4⟩, .none, .none, 0⟩
    let set : RegionSet := .ofList [overlapping, ⟨12, 0, ⟨4⟩, .none, .none, 0⟩, ⟨2, 3, ⟨2⟩, ⟨1⟩, .none, 0⟩, outer,
      ⟨11, 1, ⟨16⟩, ⟨8⟩, .none, 0⟩]
    Sorted set.regions ∧ Owned set.regions ∧ set.removeOverlaps.regions.length = 3 ∧
      overlapping ∉ set.removeOverlaps.regions ∧ set.removeOverlaps.removeOverlaps = set.removeOverlaps := by
  intro outer overlapping set
  have hsorted : Sorted set.regions := sort_sorted _
  have howned : Owned set.regions := by
    unfold Owned
    decide
  obtain ⟨-, -, hdropped, -, hagain⟩ := removeOverlaps_greedy hsorted howned
  refine ⟨hsorted, howned, by decide, (hdropped overlapping (by decide) rfl).2 ?_, hagain⟩
  exact ⟨outer, by decide, by decide, by decide⟩

end Linewise.RegionSet
