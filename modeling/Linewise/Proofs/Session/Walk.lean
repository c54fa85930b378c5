/-
Walks down the lines of a session.

Two operations visit each line once, beginning with the first and going on to the one below until there is none: bringing
the highlighting up to date, and expanding all lines. A visit may change what is below. Here a walk is given by rules of
inference, with no bound on the lines it visits (`Walk`); one that never came to an end would have no derivation, and none
has two outcomes (`Walk.unique`).
- Analysing a line changes no lines, so the walk that does it visits those there are at the start, in order
  (`walk_refresh_iff`).
- Expanding a line brings lines back below it. The operation bounds its visits; a walk that needs no more of them is what it
  does (`Walk.expandFrom`).
-/
import Linewise.Proofs.Session.Runs

namespace Linewise.Session

variable {s t t' : Session} {visit : Session → LineId → Option (Nat × Session)} {line : Option LineId}
  {visits visits' total total' : Nat}

/-- a walk from a line on: how many lines it visits until there is none, what the visits add up to, and the session it leaves -/
inductive Walk (visit : Session → LineId → Option (Nat × Session)) : Session → Option LineId → Nat → Nat → Session → Prop
  | past {s : Session} : Walk visit s none 0 0 s
  | visit {s t u : Session} {id : LineId} {answer visits total : Nat} :
      visit s id = some (answer, t) → Walk visit t (t.document.next? id) visits total u →
      Walk visit s (some id) (visits + 1) (answer + total) u

/-- a walk has one outcome -/
theorem Walk.unique (h : Walk visit s line visits total t) (h' : Walk visit s line visits' total' t') :
    visits = visits' ∧ total = total' ∧ t = t' := by
  induction h generalizing visits' total' t' with
  | past => cases h' with
    | past => exact ⟨rfl, rfl, rfl⟩
  | visit hvisit _ ih => cases h' with
    | visit hvisit' hrest =>
      obtain ⟨rfl, rfl⟩ := Prod.mk.inj (Option.some.inj (hvisit.symm.trans hvisit'))
      obtain ⟨rfl, rfl, rfl⟩ := ih hrest
      exact ⟨rfl, rfl, rfl⟩

/-! ## Bringing the highlighting up to date -/

/-- visit a line to have it analysed if it is dirty -/
def refreshVisit (s : Session) (id : LineId) : Option (Nat × Session) := some (s.refresh id)

/-- from any line on, those below are visited as they were at the start -/
theorem walk_refresh (h : s.document.WellFormed) {above ids : List LineId} (ho : s.document.order = above ++ ids) :
    Walk refreshVisit s ids.head? ids.length (s.refreshAll ids).1 (s.refreshAll ids).2 := by
  induction ids generalizing s above with
  | nil => exact .past
  | cons id ids ih =>
    have hsame : (s.refresh id).2.document = s.document := refresh_document s id
    have hrest : Walk refreshVisit (s.refresh id).2 ids.head? ids.length ((s.refresh id).2.refreshAll ids).1
        ((s.refresh id).2.refreshAll ids).2 := ih (hsame ▸ h) (by rw [hsame, ho, List.append_cons])
    have hnext : (s.refresh id).2.document.next? id = ids.head? := by
      rw [hsame]
      exact Document.next?_of_split h ho
    rw [← hnext] at hrest
    exact .visit rfl hrest

/-- **The walk that analyses dirty lines comes to an end**, and visits each line there was at the start, in order. -/
theorem walk_refresh_iff (h : s.WellFormed) :
    Walk refreshVisit s s.document.first? visits total t ↔
      visits = s.document.order.length ∧ s.refreshAll s.document.order = (total, t) := by
  have hwalk : Walk refreshVisit s s.document.first? _ _ _ := walk_refresh h.sheet.document (List.nil_append _).symm
  constructor
  · intro hother
    obtain ⟨hvisits, htotal, ht⟩ := hother.unique hwalk
    exact ⟨hvisits, Prod.ext htotal.symm ht.symm⟩
  · rintro ⟨rfl, hall⟩
    rwa [hall] at hwalk

/-! ## Expanding all lines -/

/-- visit a line to have it expanded one level if it is collapsed -/
def expandVisit (s : Session) (id : LineId) : Option (Nat × Session) :=
  if s.table.isCollapsed id then
    match s.expand id false with
    | (.error _, _) => none
    | (.ok _, s) => some (1, s)
  else some (0, s)

/-- **A walk that needs no more visits than it may make goes to its end**, so more of them change nothing. -/
theorem Walk.expandFrom (h : Walk expandVisit s line visits total t) {fuel : Nat} (hf : visits ≤ fuel) :
    s.expandFrom fuel line = (.ok total, t) := by
  induction h generalizing fuel with
  | past => cases fuel <;> rfl
  | @visit s t u id answer visits total hvisit _ ih =>
    obtain ⟨fuel, rfl⟩ : ∃ rest, fuel = rest + 1 := Nat.exists_eq_add_one.2 (by omega)
    have hrest := ih (Nat.le_of_succ_le_succ hf)
    unfold expandVisit at hvisit
    unfold Session.expandFrom
    by_cases hc : s.table.isCollapsed id = true
    · rw [if_pos hc] at hvisit ⊢
      cases hexpand : s.expand id false with
      | mk reply after =>
        cases reply with
        | error _ =>
          simp only [hexpand] at hvisit
          cases hvisit
        | ok _ =>
          simp only [hexpand] at hvisit ⊢
          cases hvisit
          rw [hrest, Nat.add_comm]
          rfl
    · rw [if_neg hc] at hvisit ⊢
      cases hvisit
      rw [hrest, Nat.zero_add]

end Linewise.Session
