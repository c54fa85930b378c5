/-
Line states and the table that holds them.
-/
import Linewise.Line.Id
import Linewise.Line.Snapshot
import Linewise.Region.Basic

namespace Linewise

/-- what is known of a line: its regions, its own tallies, whether indentation and folding pass it over, whether it has
to be analysed again, and what it hides -/
structure LineState where
  regions : RegionSet := {}
  tallies : Tallies := {}
  ignored : Bool := false
  dirty : Bool := false
  snapshot : Option Snapshot := none
  deriving Inhabited

namespace LineState

/-- a line that was never analysed -/
def fresh : LineState := { dirty := true }

/-- whether the line hides others -/
def isCollapsed (s : LineState) : Bool := s.snapshot.isSome

/-- the range open when the line begins -/
def incoming (s : LineState) : RuleId := s.regions.incoming

/-- the range handed to the next line of the document: past the hidden lines, if what is noted for them begins with
what the line itself leaves open -/
def outgoing (s : LineState) : RuleId :=
  match s.snapshot.bind (·.carried) with
  | some carried => if carried.incoming = s.regions.outgoing then carried.outgoing else s.regions.outgoing
  | none => s.regions.outgoing

/-- the tallies of the line and of all it hides -/
def totalTallies (s : LineState) : Tallies :=
  match s.snapshot with
  | some snapshot => s.tallies + snapshot.tallies
  | none => s.tallies

/-- how many lines are hidden behind the line -/
def hiddenCount (s : LineState) : Nat := (s.snapshot.map (·.hiddenCount)).getD 0

end LineState

/-- line states by line id -/
structure LineTable where
  entries : List (LineId × LineState) := []
  deriving Inhabited

namespace LineTable

/-- the state of a line -/
def get? (t : LineTable) (id : LineId) : Option LineState := t.entries.lookup id

/-- the state of a line; one without state was never analysed -/
def entry (t : LineTable) (id : LineId) : LineState := (t.get? id).getD .fresh

/-- whether the line has a state -/
def contains (t : LineTable) (id : LineId) : Bool := (t.get? id).isSome

/-- set the state of a line -/
def insert (t : LineTable) (id : LineId) (state : LineState) : LineTable :=
  if t.contains id then ⟨t.entries.map fun (key, old) => if key = id then (key, state) else (key, old)⟩
  else ⟨t.entries ++ [(id, state)]⟩

/-- set the states of lines -/
def insertAll (t : LineTable) (states : List (LineId × LineState)) : LineTable :=
  states.foldl (fun t (id, state) => t.insert id state) t

/-- drop the state of a line -/
def erase (t : LineTable) (id : LineId) : LineTable := ⟨t.entries.filter fun (key, _) => key ≠ id⟩

/-- how many lines have a state -/
def size (t : LineTable) : Nat := t.entries.length

/-- whether no line has a state -/
def isEmpty (t : LineTable) : Bool := t.entries.isEmpty

/-- whether a line has to be analysed -/
def isDirty (t : LineTable) (id : LineId) : Bool := (t.get? id).all (·.dirty)

/-- whether a line hides others -/
def isCollapsed (t : LineTable) (id : LineId) : Bool := (t.get? id).any (·.isCollapsed)

/-- have a line analysed again -/
def markDirty (t : LineTable) (id : LineId) : LineTable := t.insert id { t.entry id with dirty := true }

/-- have a line analysed again, if there is one -/
def markDirty? (t : LineTable) : Option LineId → LineTable
  | none => t
  | some id => t.markDirty id

/-- fresh states for lines -/
def freshFor (ids : List LineId) : LineTable := insertAll {} (ids.map (·, .fresh))

/-! ## What look-ups see -/

theorem get?_eq_none_of_not_contains (t : LineTable) (id : LineId) (h : t.contains id = false) : t.get? id = none := by
  simpa [contains] using h

theorem lookup_cons_entry (entries : List (LineId × LineState)) (key other : LineId) (state : LineState) :
    ((key, state) :: entries).lookup other = if other = key then some state else entries.lookup other := by
  by_cases h : other = key
  · simp [h]
  · simp [List.lookup_cons, h, beq_false_of_ne h]

theorem lookup_map_replace (entries : List (LineId × LineState)) (id other : LineId) (state : LineState) :
    (entries.map fun (key, old) => if key = id then (key, state) else (key, old)).lookup other =
      if other = id then (entries.lookup other).map fun _ => state else entries.lookup other := by
  induction entries with
  | nil => simp
  | cons entry entries ih =>
    obtain ⟨key, old⟩ := entry
    simp only [List.map_cons]
    split
    · rename_i hk
      rw [lookup_cons_entry, lookup_cons_entry, ih, hk]
      by_cases ho : other = id <;> simp [ho]
    · rename_i hk
      rw [lookup_cons_entry, lookup_cons_entry, ih]
      by_cases ho : other = key
      · simp [ho, hk]
      · simp [ho]

theorem lookup_append_entry (entries : List (LineId × LineState)) (id other : LineId) (state : LineState) :
    (entries ++ [(id, state)]).lookup other =
      (entries.lookup other).or (if other = id then some state else none) := by
  induction entries with
  | nil => simp [lookup_cons_entry]
  | cons entry entries ih =>
    obtain ⟨key, old⟩ := entry
    by_cases ho : other = key <;> simp_all [lookup_cons_entry]

/-- a line set is the only one whose look-up changes -/
theorem get?_insert (t : LineTable) (id other : LineId) (state : LineState) :
    (t.insert id state).get? other = if other = id then some state else t.get? other := by
  unfold insert
  split
  · rename_i h
    by_cases ho : other = id
    · subst ho
      obtain ⟨old, hold⟩ := Option.isSome_iff_exists.1 h
      simp only [get?] at hold ⊢
      rw [lookup_map_replace, hold]
      simp
    · simp only [get?]
      rw [lookup_map_replace, if_neg ho, if_neg ho]
  · rename_i h
    have h := t.get?_eq_none_of_not_contains id (by simpa using h)
    simp only [get?] at h ⊢
    rw [lookup_append_entry]
    by_cases ho : other = id
    · subst ho; simp [h]
    · simp [ho]

/-- a line dropped is the only one whose look-up changes -/
theorem get?_erase (t : LineTable) (id other : LineId) :
    (t.erase id).get? other = if other = id then none else t.get? other := by
  obtain ⟨entries⟩ := t
  simp only [erase, get?]
  induction entries with
  | nil => simp
  | cons entry entries ih =>
    obtain ⟨key, old⟩ := entry
    by_cases hk : key = id
    · rw [List.filter_cons_of_neg (by simp [hk]), ih, lookup_cons_entry, hk]
      by_cases ho : other = id <;> simp [ho]
    · rw [List.filter_cons_of_pos (by simp [hk]), lookup_cons_entry, lookup_cons_entry, ih]
      by_cases ho : other = key <;> simp_all

end LineTable

end Linewise
