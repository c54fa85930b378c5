/-
Edits do not move lines.

An edit puts lines in or takes lines out, never both, and leaves the others in their order (`Plain.ids_apply`). A line
that is gone does not come back, so the lines that are there before and after a run of edits stand in the same order.

Main statements:
- `Exact.sameOrder_perform`, `Exact.sameOrder_run`: one edit, and any run of edits, keeps the order of the lines that
  stay;
- `SameOrder.above`, `SameOrder.filter_eq`: so do the lines above a line that stays, and any of them picked in both.
-/
import Mathlib.Data.List.Perm.Subperm
import Linewise.Proofs.Document.Plain

namespace Linewise

/-- the lines that two lists share stand in the same order in both -/
def SameOrder (l m : List LineId) : Prop := l.filter (· ∈ m) = m.filter (· ∈ l)

section SameOrder

variable {l m n : List LineId}

theorem filter_mem_of_sublist (h : l.Sublist m) (hm : m.Nodup) : m.filter (· ∈ l) = l := by
  have hsub : (l.filter (· ∈ l)).Sublist (m.filter (· ∈ l)) := h.filter _
  rw [List.filter_eq_self.2 (by simp)] at hsub
  have hsubset : m.filter (· ∈ l) ⊆ l := by
    intro x hx
    simpa using (List.mem_filter.1 hx).2
  exact (hsub.eq_of_length_le (List.subperm_of_subset (hm.filter _) hsubset).length_le).symm

theorem sameOrder_of_sublist (h : l.Sublist m) (hm : m.Nodup) : SameOrder l m := by
  rw [SameOrder, filter_mem_of_sublist h hm, List.filter_eq_self]
  intro x hx
  simpa using h.subset hx

theorem SameOrder.symm (h : SameOrder l m) : SameOrder m l := Eq.symm h

/-- the order of shared lines is passed on if no line leaves and comes back -/
theorem SameOrder.trans (hlm : SameOrder l m) (hmn : SameOrder m n) (hstay : ∀ x ∈ l, x ∈ n → x ∈ m) :
    SameOrder l n := by
  calc l.filter (· ∈ n)
      _ = (l.filter (· ∈ m)).filter (· ∈ n) := by
        rw [List.filter_filter]
        refine List.filter_congr fun x hx => ?_
        simpa using hstay x hx
      _ = (m.filter (· ∈ n)).filter (· ∈ l) := by rw [hlm, List.filter_comm]
      _ = n.filter (· ∈ l) := by
        rw [hmn, List.filter_filter]
        refine List.filter_congr fun x hx => ?_
        simpa using fun hl => hstay x hl hx

/-- two lists in the same order, of which the same lines are picked, give these in the same order -/
theorem SameOrder.filter_eq (h : SameOrder l m) {p q : LineId → Bool}
    (hpq : ∀ x, x ∈ m ∧ q x = true ↔ x ∈ l ∧ p x = true) : m.filter q = l.filter p := by
  calc m.filter q
      _ = (m.filter (· ∈ l)).filter p := by
        rw [List.filter_filter]
        refine List.filter_congr fun x hx => ?_
        rw [Bool.eq_iff_iff, Bool.and_eq_true, decide_eq_true_iff, and_comm, ← hpq x]
        exact (and_iff_right hx).symm
      _ = (l.filter (· ∈ m)).filter p := by rw [h]
      _ = l.filter p := by
        rw [List.filter_filter]
        refine List.filter_congr fun x hx => ?_
        simpa using fun hp => ((hpq x).2 ⟨hx, hp⟩).1

/-- what is picked from `l` for being in `m` is in `l'`, if the same is picked from `l'` -/
theorem filter_mem_narrow {l' m' : List LineId} (h : l.filter (· ∈ m) = l'.filter (· ∈ m')) (hl : l' ⊆ m) :
    l.filter (· ∈ m) = l.filter (· ∈ l') := by
  refine List.filter_congr fun x hx => ?_
  rw [decide_eq_decide]
  constructor
  · intro hm
    have hin : x ∈ l.filter (· ∈ m) := List.mem_filter.2 ⟨hx, by simpa using hm⟩
    rw [h] at hin
    exact List.mem_of_mem_filter hin
  · exact fun hx' => hl hx'

/-- where lines stand in the same order, so do those above a line that both lists have -/
theorem SameOrder.above {above below above' below' : List LineId} {id : LineId}
    (h : SameOrder (above ++ id :: below) (above' ++ id :: below')) (ha : id ∉ above) (hb : id ∉ below) :
    SameOrder above above' := by
  rw [SameOrder, List.filter_append, List.filter_append, List.filter_cons_of_pos (by simp),
    List.filter_cons_of_pos (by simp)] at h
  have hparts := ((List.append_cons_inj_of_notMem (mt List.mem_of_mem_filter ha) (mt List.mem_of_mem_filter hb)).1 h).1
  calc above.filter (· ∈ above')
      _ = above.filter (· ∈ above' ++ id :: below') := (filter_mem_narrow hparts (List.subset_append_left _ _)).symm
      _ = above'.filter (· ∈ above ++ id :: below) := hparts
      _ = above'.filter (· ∈ above) := filter_mem_narrow hparts.symm (List.subset_append_left _ _)

end SameOrder

/-! ## Edits -/

namespace Plain

theorem replace_self (id : LineId) (lines : List (LineId × Text)) :
    replace id (fun text => [(id, text)]) lines = lines := by
  have hline : (fun line : LineId × Text => if line.1 = id then [(id, line.2)] else [line]) = fun line => [line] := by
    funext line
    split_ifs with hid
    · rw [← hid]
    · rfl
  rw [replace, hline, List.flatMap_singleton']

theorem replace_sublist (id : LineId) {f g : Text → List (LineId × Text)}
    (hfg : ∀ text, ((f text).map (·.1)).Sublist ((g text).map (·.1))) (lines : List (LineId × Text)) :
    ((replace id f lines).map (·.1)).Sublist ((replace id g lines).map (·.1)) := by
  induction lines with
  | nil => exact List.Sublist.refl _
  | cons line lines ih =>
    rw [replace, replace, List.flatMap_cons, List.flatMap_cons, List.map_append, List.map_append]
    refine List.Sublist.append ?_ ih
    split_ifs
    · exact hfg line.2
    · exact List.Sublist.refl _

section Replace

variable {p q : Plain} {id : LineId} {f : Text → List (LineId × Text)}

/-- lines are only put in if the line is among those in its place -/
theorem ids_sublist_of_replace (hq : q.lines = replace id f p.lines) (hf : ∀ text, id ∈ (f text).map (·.1)) :
    p.ids.Sublist q.ids := by
  have h := replace_sublist id (f := fun text => [(id, text)]) (fun text => List.singleton_sublist.2 (hf text)) p.lines
  rw [replace_self] at h
  rw [ids, ids, hq]
  exact h

/-- lines are only taken out if no other line takes the place of the line -/
theorem ids_sublist_self_of_replace (hq : q.lines = replace id f p.lines)
    (hf : ∀ text, ((f text).map (·.1)).Sublist [id]) : q.ids.Sublist p.ids := by
  have h := replace_sublist id (g := fun text => [(id, text)]) hf p.lines
  rw [replace_self] at h
  rw [ids, ids, hq]
  exact h

end Replace

variable (p : Plain)

theorem ids_insertFirst (text : Text) : p.ids.Sublist (p.insertFirst text).ids := by
  rw [ids, ids, insertFirst, List.map_append]
  exact List.sublist_append_right _ _

theorem ids_insertAfter (id : LineId) (texts : List Text) : p.ids.Sublist (p.insertAfter id texts).ids := by
  have hlines : (p.insertAfter id texts).lines = replace id (fun text => (id, text) :: p.fresh texts) p.lines := rfl
  exact ids_sublist_of_replace hlines fun old => List.mem_cons_self

theorem ids_insertBefore (id : LineId) (text : Text) : p.ids.Sublist (p.insertBefore id text).ids := by
  have hlines : (p.insertBefore id text).lines = replace id (fun old => p.fresh [text] ++ [(id, old)]) p.lines := rfl
  exact ids_sublist_of_replace hlines fun old => by simp

theorem ids_setText (id : LineId) (text : Text) : (p.setText id text).ids.Sublist p.ids := by
  have hlines : (p.setText id text).lines = replace id (fun _ => [(id, text)]) p.lines := rfl
  exact ids_sublist_self_of_replace hlines fun old => List.Sublist.refl _

theorem ids_remove (id : LineId) : (p.remove id).ids.Sublist p.ids := by
  by_cases hlast : p.lines.length = 1
  · rw [remove, if_pos hlast]
    exact p.ids_setText id []
  · have hlines : (p.remove id).lines = replace id (fun _ => []) p.lines := by rw [remove, if_neg hlast]
    exact ids_sublist_self_of_replace hlines fun old => List.nil_sublist _

theorem ids_removeRows {first last : Nat} (h : p.Removable first last) :
    (Plain.ids ⟨p.lines.take first ++ p.lines.drop (last + 1), p.nextId⟩).Sublist p.ids := by
  have hdrop : (p.lines.drop (last + 1)).Sublist (p.lines.drop first) :=
    List.drop_sublist_drop_left _ (Nat.le_succ_of_le h.1)
  have hrows := (List.Sublist.refl (p.lines.take first)).append hdrop
  rw [List.take_append_drop] at hrows
  exact hrows.map _

/-- an edit only puts lines in, or it only takes lines out -/
theorem ids_apply (edit : Edit) : p.ids.Sublist (p.apply edit).2.ids ∨ (p.apply edit).2.ids.Sublist p.ids := by
  cases edit with
  | look id => exact .inl (List.Sublist.refl _)
  | setText id text => exact .inr (p.ids_setText id text)
  | insertFirst text => exact .inl (p.ids_insertFirst text)
  | insertAfter after text => cases after with
    | none => exact .inl (p.ids_insertFirst text)
    | some id => exact .inl (p.ids_insertAfter id [text])
  | insertBefore before text => exact .inl (p.ids_insertBefore before text)
  | insertLinesAfter after texts => exact .inl (p.ids_insertAfter after texts)
  | remove id => exact .inr (p.ids_remove id)
  | removeRows first last =>
    simp only [apply]
    split_ifs with hr
    · exact .inr (p.ids_removeRows hr)
    · exact .inl (List.Sublist.refl _)

theorem ids_perform (edit : Edit) : p.ids.Sublist (p.perform edit).2.ids ∨ (p.perform edit).2.ids.Sublist p.ids := by
  unfold perform
  split_ifs
  · exact p.ids_apply edit
  · exact .inl (List.Sublist.refl _)

end Plain

namespace Document

variable {d : Document}

/-- **One edit keeps the order of the lines that stay.** -/
theorem Exact.sameOrder_perform (h : d.Exact) (edit : Edit) : SameOrder d.order (d.perform edit).2.order := by
  have hrefines := perform_refines h edit
  have hids := d.plain.ids_perform edit
  rw [← hrefines.plain, ids_plain, ids_plain] at hids
  rcases hids with hin | hout
  · exact sameOrder_of_sublist hin hrefines.exact.wellFormed.nodup
  · exact (sameOrder_of_sublist hout h.wellFormed.nodup).symm

theorem Exact.nextId_perform (h : d.Exact) (edit : Edit) : d.nextId ≤ (d.perform edit).2.nextId := by
  obtain ⟨count, -, hnext⟩ := d.plain.perform_created edit
  rw [← (perform_refines h edit).plain] at hnext
  exact Nat.le.intro hnext.symm

/-- **Edits keep the order of the lines that stay.** -/
theorem Exact.sameOrder_run (h : d.Exact) (edits : List Edit) : SameOrder d.order (d.run edits).2.order := by
  induction edits generalizing d with
  | nil => rfl
  | cons edit edits ih =>
    have hexact := (perform_refines h edit).exact
    refine (h.sameOrder_perform edit).trans (ih hexact) fun x hx hlast => ?_
    by_contra hgone
    have hlt : x.index < (d.perform edit).2.nextId :=
      Nat.lt_of_lt_of_le (h.wellFormed.lt_next x hx) (h.nextId_perform edit)
    exact hexact.not_mem_run edits hlt hgone hlast

end Document

end Linewise
