/-
What subscribers are told.

A session sends an event when the regions of a line come out other than they were kept, and when layouts are dropped that
somebody was given. `Follows` says what only grows along a run: deliveries stay delivered, subscribers stay subscribed, and
ids are not handed out again. `Heard` is an event that reached everyone who was subscribed.

Main statements:
- `act_tells`: a move that drops layouts tells of it, if there were any; `analyze_told`: analysing a line tells of regions
  that differ;
- `layout_until_told`: a layout stays what it is until subscribers are told otherwise;
- `unreported_iff`: the regions of a line differ, with nobody told, exactly if the line was emptied for being the only one,
  and had regions before; `emptied_unreported` is such a run.
-/
import Linewise.Proofs.Fold.Cache
import Linewise.Proofs.Hidden.Tallies

namespace Linewise

/-- something done to a session: an operation, or a change to how it works. Taking out what piled up is none: it is how
subscribers read what they were told. -/
inductive Call where
  | perform (op : Op)
  | configure (settings : IndentSettings)
  | passOver (ignores : IgnoreRule)
  | subscribe

/-- the moves that a call is made of -/
def Call.Makes : Call → Move → Prop
  | perform op, m => op.Makes m
  | configure settings, m => m = .configure settings
  | passOver ignores, m => m = .ignore ignores
  | subscribe, m => m = .subscribe

/-- whether a move leaves what was delivered where it is -/
def Move.keepsDeliveries : Move → Bool
  | drain => false
  | _ => true

namespace Session

/-- the session after a call -/
def call (s : Session) : Call → Session
  | .perform op => s.step op
  | .configure settings => s.withSettings settings
  | .passOver ignores => s.withIgnoreRule ignores
  | .subscribe => s.subscribe

/-- the session after calls one after the other -/
def calls (s : Session) (cs : List Call) : Session := cs.foldl call s

theorem calls_append (s : Session) (first second : List Call) :
    s.calls (first ++ second) = (s.calls first).calls second := by
  simp [calls, List.foldl_append]

/-- what was delivered between `s` and `t` -/
def since (s t : Session) : List Delivery := t.deliveries.drop s.deliveries.length

/-- everyone subscribed in `s` received the event between `s` and `t` -/
def Heard (s t : Session) (event : Event) : Prop := ∀ i < s.subscribers, ⟨i, event⟩ ∈ s.since t

/-! ## What only grows -/

/-- `t` comes after `s` -/
structure Follows (s t : Session) : Prop where
  deliveries : s.deliveries <+: t.deliveries
  subscribers : s.subscribers ≤ t.subscribers
  document : s.document.Succeeds t.document

namespace Follows

variable {s t u : Session}

theorem refl (s : Session) : Follows s s := ⟨List.prefix_refl _, Nat.le_refl _, .refl _⟩

theorem trans (h : Follows s t) (h' : Follows t u) : Follows s u :=
  ⟨h.deliveries.trans h'.deliveries, Nat.le_trans h.subscribers h'.subscribers, h.document.trans h'.document⟩

theorem of_same (hd : t.deliveries = s.deliveries) (hs : t.subscribers = s.subscribers)
    (hdoc : s.document.Succeeds t.document) : Follows s t :=
  ⟨hd ▸ List.prefix_refl _, Nat.le_of_eq hs.symm, hdoc⟩

/-- what was delivered on the way to `u` is what was delivered on the way to `t` and from there -/
theorem since_eq (h : Follows s t) (h' : Follows t u) : s.since u = s.since t ++ t.since u := by
  obtain ⟨new, hnew⟩ := h.deliveries
  obtain ⟨newer, hnewer⟩ := h'.deliveries
  simp only [since, ← hnewer, ← hnew, List.append_assoc, List.drop_left]
  rw [← List.append_assoc, List.drop_left]

theorem heard_before (h : Follows s t) (h' : Follows t u) {event : Event} (he : Heard s t event) : Heard s u event := by
  intro i hi
  rw [since_eq h h']
  exact List.mem_append_left _ (he i hi)

theorem heard_after (h : Follows s t) (h' : Follows t u) {event : Event} (he : Heard t u event) : Heard s u event := by
  intro i hi
  rw [since_eq h h']
  exact List.mem_append_right _ (he i (Nat.lt_of_lt_of_le hi h.subscribers))

/-- a line that is there before and after is there in between -/
theorem mem_between (h : Follows s t) (h' : Follows t u) (hw : s.WellFormed) {line : LineId}
    (hs : line ∈ s.document.order) (hu : line ∈ u.document.order) : line ∈ t.document.order := by
  rcases h'.document.lines line hu with hold | hnew
  · exact hold
  · have hlt := hw.sheet.document.lt_next line hs
    have hle := h.document.nextId
    omega

end Follows

/-! ## What moves send -/

theorem notify_follows (s : Session) (event : Event) : Follows s (s.notify event) :=
  ⟨List.prefix_append _ _, Nat.le_refl _, .refl _⟩

theorem notify_heard (s : Session) (event : Event) : Heard s (s.notify event) event := by
  intro i hi
  simp only [since, notify, List.drop_left]
  exact List.mem_map.2 ⟨i, List.mem_range.2 hi, rfl⟩

theorem dropFolds_follows (s : Session) : Follows s s.dropFolds := by
  have hdropped : Follows s { s with folds := s.folds.map fun _ => none } := .of_same rfl rfl (.refl _)
  unfold dropFolds
  simp only
  split_ifs
  · exact hdropped.trans (notify_follows _ _)
  · exact hdropped

theorem dropFolds_heard {s : Session} (h : s.folds.any (·.isSome) = true) : Heard s s.dropFolds .foldsChanged := by
  unfold dropFolds
  simp only [if_pos h]
  exact notify_heard { s with folds := s.folds.map fun _ => none } _

/-- `t` comes after `s`, and if layouts were dropped on the way, subscribers heard of it -/
structure Tells (s t : Session) : Prop where
  follows : Follows s t
  folds : t.folds = s.folds ∨ (s.folds.any (·.isSome) = true → Heard s t .foldsChanged)

namespace Tells

variable {s t u : Session}

theorem of_same (hd : t.deliveries = s.deliveries) (hs : t.subscribers = s.subscribers) (hf : t.folds = s.folds)
    (hdoc : s.document.Succeeds t.document) : Tells s t := ⟨.of_same hd hs hdoc, Or.inl hf⟩

theorem refl (s : Session) : Tells s s := .of_same rfl rfl rfl (.refl _)

theorem trans (h : Tells s t) (h' : Tells t u) : Tells s u := by
  refine ⟨h.follows.trans h'.follows, ?_⟩
  rcases h.folds with hkept | htold
  · rcases h'.folds with hkept' | htold'
    · exact Or.inl (hkept'.trans hkept)
    · exact Or.inr fun hb => h.follows.heard_after h'.follows (htold' (hkept ▸ hb))
  · exact Or.inr fun hb => h.follows.heard_before h'.follows (htold hb)

theorem notify (s : Session) (event : Event) : Tells s (s.notify event) := ⟨notify_follows s event, Or.inl rfl⟩

theorem dropFolds (s : Session) : Tells s s.dropFolds := ⟨dropFolds_follows s, Or.inr dropFolds_heard⟩

/-- most moves change lines and drop the layouts -/
theorem of_dropFolds (hd : t.deliveries = s.deliveries) (hs : t.subscribers = s.subscribers) (hf : t.folds = s.folds)
    (hdoc : s.document.Succeeds t.document) : Tells s t.dropFolds := (of_same hd hs hf hdoc).trans (dropFolds t)

end Tells

theorem store_tells (s : Session) (id : LineId) (new : LineState) : Tells s (s.store id new) := by
  unfold store
  simp only
  set kept : Session := { s with table := s.table.insert id new }
  have hkept : Tells s kept := .of_same rfl rfl rfl (.refl _)
  have htold : Tells s (if (s.table.entry id).regions ≠ new.regions then kept.notify (.lineChanged id) else kept) := by
    split_ifs
    · exact hkept.trans (.notify _ _)
    · exact hkept
  by_cases hchanged : (s.table.entry id).tallies ≠ new.tallies ∨ (s.table.entry id).ignored ≠ new.ignored
  · rw [if_pos hchanged]
    exact htold.trans (.dropFolds _)
  · rw [if_neg hchanged]
    exact htold

/-- storing regions that differ from those before is told -/
theorem store_heard {s : Session} {id : LineId} {new : LineState} (h : (s.table.entry id).regions ≠ new.regions) :
    Heard s (s.store id new) (.lineChanged id) := by
  set kept : Session := { s with table := s.table.insert id new }
  have hkept : Follows s kept := .of_same rfl rfl (.refl _)
  have htold : Heard s (kept.notify (.lineChanged id)) (.lineChanged id) := notify_heard kept _
  unfold store
  simp only [if_pos h]
  split_ifs
  · exact (hkept.trans (notify_follows _ _)).heard_before (dropFolds_follows _) htold
  · exact htold

theorem handOver_tells (s : Session) (id : LineId) (range : RuleId) : Tells s (s.handOver id range).2 := by
  unfold handOver
  repeat' split
  all_goals exact .of_same rfl rfl rfl (.refl _)

theorem analyzeLine_tells (s : Session) (id : LineId) : Tells s (s.analyzeLine id).2 := by
  unfold analyzeLine
  split
  · exact .refl s
  · rename_i text _
    have hlog : Tells s (s.log (s.analysisNotices id (s.analyzed id text))) := .of_same rfl rfl rfl (.refl _)
    exact (hlog.trans (store_tells _ _ _)).trans (handOver_tells _ _ _)

theorem collapse_succeeds (s : Sheet) (start stop : LineId) : s.document.Succeeds (s.collapse start stop).2.document := by
  unfold Sheet.collapse
  split
  · exact .refl _
  · split
    · exact .refl _
    · split_ifs
      · exact .refl _
      · exact .removeRows _ _ _

theorem expand_succeeds (s : Sheet) (line : LineId) (deep : Bool) :
    s.document.Succeeds (s.expand line deep).2.document := by
  unfold Sheet.expand
  split_ifs
  · exact .refl _
  · split
    · exact .refl _
    · simp only
      split
      · exact .refl _
      · unfold Sheet.restore
        simp only
        split
        · exact .refl _
        · rename_i hi
          exact .insertLinesAfter? hi

/-- **A move that drops layouts tells of it**, if there were any. -/
theorem act_tells (s : Session) {m : Move} (hm : m.keepsDeliveries = true) (hk : ∀ kind, m ≠ .keepLayout kind) :
    Tells s (s.act m) := by
  cases m with
  | analyze line => exact analyzeLine_tells s line
  | setText line text =>
    simp only [act, setText]
    split
    · exact .refl s
    · rename_i hset
      exact .of_dropFolds rfl rfl rfl (.setText? hset)
  | insertAfter line text =>
    simp only [act, insertAfter]
    cases line with
    | none => exact .of_dropFolds rfl rfl rfl (.insertAt s.document 0 [text])
    | some line =>
      simp only
      split
      · exact .refl s
      · rename_i hinsert
        exact .of_dropFolds rfl rfl rfl (.insertAfter? hinsert)
  | insertBefore line text =>
    simp only [act, insertBefore]
    split
    · exact .refl s
    · rename_i hinsert
      exact .of_dropFolds rfl rfl rfl (.insertBefore? hinsert)
  | remove line =>
    simp only [act, remove]
    split
    · exact .refl s
    · rename_i hremove
      exact .of_dropFolds rfl rfl rfl (.remove? hremove)
  | hide start stop =>
    have hdoc := collapse_succeeds s.toSheet start stop
    simp only [act, collapseClean]
    split
    · rename_i heq
      rw [heq] at hdoc
      exact .of_same rfl rfl rfl hdoc
    · rename_i heq
      rw [heq] at hdoc
      exact .of_dropFolds rfl rfl rfl hdoc
  | expand line deep =>
    have hdoc := expand_succeeds s.toSheet line deep
    simp only [act, expand]
    split
    · rename_i heq
      rw [heq] at hdoc
      exact .of_same rfl rfl rfl hdoc
    · rename_i heq
      rw [heq] at hdoc
      exact .of_dropFolds rfl rfl rfl hdoc
  | keepLayout kind => exact absurd rfl (hk kind)
  | ignore rule => exact .of_same rfl rfl rfl (.refl _)
  | configure settings => exact .of_same rfl rfl rfl (.refl _)
  | subscribe => exact ⟨⟨List.prefix_refl _, Nat.le_succ _, .refl _⟩, Or.inl rfl⟩
  | drain => cases hm
  | log notices => exact .of_same rfl rfl rfl (.refl _)

theorem act_follows (s : Session) {m : Move} (hm : m.keepsDeliveries = true) : Follows s (s.act m) := by
  by_cases hk : ∃ kind, m = .keepLayout kind
  · obtain ⟨kind, rfl⟩ := hk
    exact .of_same rfl rfl (.refl _)
  · exact (act_tells s hm fun kind he => hk ⟨kind, he⟩).follows

theorem Leads.follows {s t : Session} (h : Leads (·.keepsDeliveries) s t) : Follows s t := by
  induction h with
  | refl => exact .refl s
  | @tail t m _ hm _ ih => exact ih.trans (act_follows t hm)

end Session

/-! ## Calls as runs -/

theorem Op.Makes.keepsDeliveries {op : Op} {m : Move} (h : op.Makes m) : m.keepsDeliveries = true := by
  cases m with
  | drain => cases op <;> simp [Op.Makes, Move.isNeutral, Move.isReading] at h
  | _ => rfl

theorem Call.Makes.keepsDeliveries {c : Call} {m : Move} (h : c.Makes m) : m.keepsDeliveries = true := by
  cases c with
  | perform op => exact Op.Makes.keepsDeliveries h
  | _ =>
    cases h
    rfl

/-- a line is taken out by the operation for it only -/
theorem Call.Makes.remove {c : Call} {line : LineId} (h : c.Makes (.remove line)) : c = .perform (.remove line) := by
  cases c with
  | perform op =>
    cases op with
    | remove other =>
      cases h
      rfl
    | indentLine other caret => rcases h with h | ⟨_, h⟩ <;> cases h
    | _ => cases h
  | _ => cases h

namespace Session

variable {s t : Session}

theorem call_leads (h : s.WellFormed) (c : Call) : Leads c.Makes s (s.call c) := by
  cases c with
  | perform op => exact step_leads h op
  | configure settings => exact Leads.single (m := .configure settings) rfl trivial
  | passOver ignores => exact Leads.single (m := .ignore ignores) rfl trivial
  | subscribe => exact Leads.single (m := .subscribe) rfl trivial

theorem call_follows (h : s.WellFormed) (c : Call) : Follows s (s.call c) :=
  ((call_leads h c).mono fun _ hm => hm.keepsDeliveries).follows

theorem calls_leads (h : s.WellFormed) (cs : List Call) : Leads (·.keepsDeliveries) s (s.calls cs) := by
  induction cs generalizing s with
  | nil => exact .refl
  | cons c cs ih =>
    have hc := call_leads h c
    exact (hc.mono fun _ hm => hm.keepsDeliveries).trans (ih (hc.wellFormed h))

theorem Reachable.call (h : Reachable s) (c : Call) : Reachable (s.call c) := by
  cases c with
  | perform op => exact h.step op
  | configure settings => exact h.withSettings settings
  | passOver ignores => exact h.withIgnoreRule ignores
  | subscribe => exact h.subscribe

theorem Reachable.calls (h : Reachable s) (cs : List Call) : Reachable (s.calls cs) := by
  induction cs generalizing s with
  | nil => exact h
  | cons c cs ih => exact ih (h.call c)

/-! ## Layouts that stay -/

/-- a layout that is kept stays after a move, or subscribers hear that it may not -/
theorem act_slot (hc : s.Current) {m : Move} (hm : m.keepsDeliveries = true) {kind : Nat} {layout : Layout}
    (hl : s.folds[kind]? = some (some layout)) :
    (s.act m).folds[kind]? = some (some layout) ∨ Heard s (s.act m) .foldsChanged := by
  by_cases hk : ∃ other, m = .keepLayout other
  · obtain ⟨other, rfl⟩ := hk
    -- built anew it is the same, for it is current
    left
    by_cases hsame : other = kind
    · subst hsame
      have hlt := (List.getElem?_eq_some_iff.1 hl).1
      simp only [act, keepLayout, List.getElem?_set_self hlt, ← hc other layout hl]
    · simp only [act, keepLayout, List.getElem?_set_ne hsame]
      exact hl
  · rcases (act_tells s hm fun other he => hk ⟨other, he⟩).folds with hkept | htold
    · left
      rw [hkept]
      exact hl
    · right
      exact htold (List.any_eq_true.2 ⟨some layout, List.mem_of_getElem? hl, rfl⟩)

theorem Leads.slot (hl : Leads (·.keepsDeliveries) s t) (h : s.WellFormed) (hc : s.Current) {kind : Nat}
    {layout : Layout} (hs : s.folds[kind]? = some (some layout)) :
    t.folds[kind]? = some (some layout) ∨ Heard s t .foldsChanged := by
  induction hl with
  | refl => exact Or.inl hs
  | @tail t m hl hm ha ih =>
    have hcurrent := (hl.invariant (fun _ _ hw hc _ ha => act_current hw hc ha) h hc).2
    rcases ih with hkept | hheard
    · rcases act_slot hcurrent hm hkept with hkept' | hheard
      · exact Or.inl hkept'
      · exact Or.inr (hl.follows.heard_after (act_follows t hm) hheard)
    · exact Or.inr (hl.follows.heard_before (act_follows t hm) hheard)

/-- the layout that was given out is the one that is kept -/
theorem layout_slot (h : s.WellFormed) {kind : Nat} {layout : Layout} (hl : (s.layout kind).1 = .ok layout) :
    (s.layout kind).2.folds[kind]? = some (some layout) := by
  have hlen := ((rehighlight_leads s).wellFormed h).folds
  unfold Session.layout at hl ⊢
  split_ifs at hl ⊢ with hk
  · simp only [if_pos hlen] at hl ⊢
    split at hl
    · cases hl
    · rename_i hslot
      cases hl
      simp only [hslot]
    · rename_i hslot
      cases hl
      have hlt := (List.getElem?_eq_some_iff.1 hslot).1
      simp only [log, List.getElem?_set_self hlt]

/-- **A layout stays what it is until subscribers are told otherwise.** A layout is asked for, then anything is done to the
session, then the layout of the same kind of delimiter is asked for again; both are given, and if a subscriber was not
told from the first answer to the second that folds changed, they are the same. -/
theorem layout_until_told (h : Reachable s) {kind : Nat} (hk : kind < s.grammar.delimiters.length) {i : Nat}
    (hi : i < s.subscribers) (cs : List Call)
    (hq : ⟨i, .foldsChanged⟩ ∉ (s.layout kind).2.since ((s.layout kind).2.calls (cs ++ [.perform (.layout kind)]))) :
    ∃ layout, (s.layout kind).1 = .ok layout ∧ (((s.layout kind).2.calls cs).layout kind).1 = .ok layout := by
  have hfirst : Reachable (s.layout kind).2 := h.step (.layout kind)
  have hlater : Reachable ((s.layout kind).2.calls cs) := hfirst.calls cs
  have hleads := layout_leads h.wellFormed kind
  have hanswer := layout_answer h hk
  have hgrammar : ((s.layout kind).2.calls cs).grammar = s.grammar :=
    (calls_leads hfirst.wellFormed cs).grammar.trans hleads.grammar
  have hanswer' := layout_answer hlater (hgrammar ▸ hk)
  refine ⟨_, hanswer, ?_⟩
  have hslot := layout_slot h.wellFormed hanswer
  have hslot' := layout_slot hlater.wellFormed hanswer'
  have hsub : s.subscribers ≤ (s.layout kind).2.subscribers :=
    (call_follows h.wellFormed (.perform (.layout kind))).subscribers
  have hrun := calls_leads hfirst.wellFormed (cs ++ [.perform (.layout kind)])
  rcases hrun.slot hfirst.wellFormed hfirst.current hslot with hkept | hheard
  · rw [calls_append] at hkept
    have hsame := hslot'.symm.trans hkept
    rw [hanswer']
    simpa using hsame
  · exact absurd (hheard i (Nat.lt_of_lt_of_le hi hsub)) hq

/-- a layout is the same before and after lines are analysed again in vain: an expansion that is refused, then passing over
the same lines as before -/
theorem layout_until_told_in_vain :
    let s := ((start commentsAndBraces (.ofText ['{', '\n', '}'])).subscribe)
    let cs : List Call := [.perform (.expand ⟨0⟩ true), .passOver blankOrComment, .perform .rehighlight]
    Reachable s ∧ 0 < s.grammar.delimiters.length ∧ 0 < s.subscribers ∧
      ⟨0, .foldsChanged⟩ ∉ (s.layout 0).2.since ((s.layout 0).2.calls (cs ++ [.perform (.layout 0)])) ∧
      ∃ layout, (s.layout 0).1 = .ok layout ∧ (((s.layout 0).2.calls cs).layout 0).1 = .ok layout := by
  intro s cs
  have hs : Reachable s := (Reachable.start _ (.ofText _)).subscribe
  have hk : 0 < s.grammar.delimiters.length := by decide
  have hi : 0 < s.subscribers := by decide
  have hq : ⟨0, .foldsChanged⟩ ∉ (s.layout 0).2.since ((s.layout 0).2.calls (cs ++ [.perform (.layout 0)])) := by
    decide +kernel
  exact ⟨hs, hk, hi, hq, layout_until_told hs hk hi cs hq⟩

end Session

/-! ## Regions that differ -/

/-- the row is that of a line among `rows`, with the same regions -/
def Row.Known (rows : List Row) (r : Row) : Prop := ∃ old ∈ rows, old.id = r.id ∧ old.state.regions = r.state.regions

namespace Row.Known

variable {rows : List Row} {r : Row}

theorem of_mem (h : r ∈ rows) : r.Known rows := ⟨r, h, rfl, rfl⟩

theorem dirtied (h : r.Known rows) : r.dirtied.Known rows := h

theorem handed (range : RuleId) (h : r.Known rows) : (r.handed range).Known rows := by
  unfold Row.handed
  split_ifs
  · exact h
  · exact h.dirtied

end Row.Known

/-- where a row after a move comes from: it is of a line known before, with the same regions, or of a new line; otherwise
its line was analysed, or was the only one and was emptied -/
def Row.Origin (m : Move) (rows : List Row) (r : Row) : Prop :=
  r.Known rows ∨ (∀ old ∈ rows, old.id ≠ r.id) ∨ m = .analyze r.id ∨
    ∃ old, rows = [old] ∧ m = .remove old.id ∧ r = .new old.id []

/-- **What moves make of regions.** -/
theorem Effect.origin {g : Grammar} {ignores : IgnoreRule} {m : Move} {rows rows' : List Row}
    (he : Effect g ignores m rows rows') : ∀ r ∈ rows', r.Origin m rows := by
  have hall : ∀ r ∈ rows, r.Known rows := fun r hr => .of_mem hr
  have hfirst : ∀ below : List Row, (∀ r ∈ below, r.Known rows) → ∀ r ∈ dirtyFirst below, r.Origin m rows :=
    fun below hb r hr => Or.inl (forall_modifyHead (fun _ hr => hr.dirtied) hb r hr)
  cases he with
  | quiet | unknown | hideRefused => exact fun r hr => Or.inl (hall r hr)
  | analyze above r below =>
    rw [List.forall_mem_append, List.forall_mem_cons] at hall ⊢
    refine ⟨fun x hx => Or.inl (hall.1 x hx), Or.inr (Or.inr (Or.inl rfl)), ?_⟩
    intro x hx
    exact Or.inl (forall_modifyHead (fun _ hr => hr.handed _) hall.2.2 x hx)
  | setText above r below text =>
    rw [List.forall_mem_append, List.forall_mem_cons] at hall ⊢
    exact ⟨fun x hx => Or.inl (hall.1 x hx), Or.inl hall.2.1, fun x hx => Or.inl (hall.2.2 x hx)⟩
  | insertFirst _ id text hid =>
    rw [List.forall_mem_cons]
    exact ⟨Or.inr (Or.inl hid), hfirst _ hall⟩
  | insertAfter above r below id text hid =>
    rw [List.forall_mem_append, List.forall_mem_cons] at hall
    rw [List.forall_mem_append, List.forall_mem_cons, List.forall_mem_cons]
    exact ⟨fun x hx => Or.inl (hall.1 x hx), Or.inl hall.2.1, Or.inr (Or.inl hid), hfirst _ hall.2.2⟩
  | insertBefore above r below id text hid =>
    rw [List.forall_mem_append, List.forall_mem_cons] at hall
    rw [List.forall_mem_append, List.forall_mem_cons, List.forall_mem_cons]
    exact ⟨fun x hx => Or.inl (hall.1 x hx), Or.inr (Or.inl hid), Or.inl hall.2.1, fun x hx => Or.inl (hall.2.2 x hx)⟩
  | remove above r below =>
    rw [List.forall_mem_append, List.forall_mem_cons] at hall
    rw [List.forall_mem_append]
    exact ⟨fun x hx => Or.inl (hall.1 x hx), hfirst _ hall.2.2⟩
  | removeOnly r =>
    rw [List.forall_mem_singleton]
    exact Or.inr (Or.inr (Or.inr ⟨r, rfl, rfl, rfl⟩))
  | hide above r hidden last below =>
    obtain ⟨hkept, hbelow⟩ := List.forall_mem_append.1 hall
    obtain ⟨habove, hspan⟩ := List.forall_mem_append.1 hkept
    obtain ⟨hr, -⟩ := List.forall_mem_cons.1 hspan
    rw [List.forall_mem_append, List.forall_mem_cons]
    exact ⟨fun x hx => Or.inl (habove x hx), Or.inl hr, hfirst _ hbelow⟩
  | expandFlat above r below deep hs =>
    rw [List.forall_mem_append, List.forall_mem_cons] at hall ⊢
    exact ⟨fun x hx => Or.inl (hall.1 x hx), Or.inl hall.2.1, fun x hx => Or.inl (hall.2.2 x hx)⟩
  | expand above r below deep snapshot ids hs hl hid =>
    rw [List.forall_mem_append, List.forall_mem_cons] at hall
    rw [List.forall_mem_append, List.forall_mem_cons, List.forall_mem_append]
    refine ⟨fun x hx => Or.inl (hall.1 x hx), Or.inl hall.2.1, ?_, hfirst _ hall.2.2⟩
    intro x hx
    refine Or.inr (Or.inl fun old hold he => hid old hold ?_)
    rw [he]
    exact Row.id_mem_restored hx
  | ignore _ rule =>
    intro r hr
    obtain ⟨old, hold, rfl⟩ := List.mem_map.1 hr
    exact Or.inl (hall old hold).dirtied

namespace Session

variable {s t : Session} {line : LineId}

/-- the regions kept for a line -/
def regionsOf (s : Session) (line : LineId) : RegionSet := (s.table.entry line).regions

theorem regionsOf_analyze (h : s.toSheet.WellFormed) (hl : line ∈ s.document.order) :
    (s.act (.analyze line)).regionsOf line = (s.analyzed line (s.document.textOf line)).regions := by
  simp only [regionsOf, act, analyzeLine_toSheet h hl, LineTable.entry_markDirty?, LineTable.entry_insert, if_pos]
  split_ifs <;> rfl

/-- **Analysing a line tells of regions that differ.** -/
theorem analyze_told (h : s.toSheet.WellFormed) (hl : line ∈ s.document.order) :
    Heard s (s.act (.analyze line)) (.lineChanged line) ∨
      (s.act (.analyze line)).regionsOf line = s.regionsOf line := by
  by_cases hsame : s.regionsOf line = (s.analyzed line (s.document.textOf line)).regions
  · right
    rw [regionsOf_analyze h hl, hsame]
  · left
    set new := s.analyzed line (s.document.textOf line) with hnew
    set logged := s.log (s.analysisNotices line new)
    have hlogged : Follows s logged := .of_same rfl rfl (.refl _)
    have hstored : Heard logged (logged.store line new) (.lineChanged line) := store_heard hsame
    have hheard := hlogged.heard_after (store_tells _ _ _).follows hstored
    have hact : s.act (.analyze line) = ((logged.store line new).handOver line new.outgoing).2 := by
      simp only [act, analyzeLine, Document.text?_eq_some h.document hl]
      rfl
    rw [hact]
    exact (hlogged.trans (store_tells _ _ _).follows).heard_before (handOver_tells _ _ _).follows hheard

/-- what a move makes of the regions of a line that stays: none other, unless subscribers hear of it or the line was the
only one and was emptied -/
theorem act_regionsOf (h : s.WellFormed) {m : Move} (ha : s.Allows m) (hs : line ∈ s.document.order)
    (ht : line ∈ (s.act m).document.order) :
    Heard s (s.act m) (.lineChanged line) ∨ (s.act m).regionsOf line = s.regionsOf line ∨
      m = .remove line ∧ s.document.order = [line] ∧ (s.act m).regionsOf line = {} := by
  have hrow : s.row line ∈ s.rows := List.mem_map_of_mem hs
  have horigin := (act_effect h.sheet m ha).1.origin ((s.act m).row line) (List.mem_map_of_mem ht)
  rcases horigin with ⟨old, hold, hid, hregions⟩ | hnew | hanalyzed | ⟨old, hrows, hm, hr⟩
  · have hid' : old.id = line := hid
    have hold' : s.row line = old := hid' ▸ Sheet.row_id hold
    refine Or.inr (Or.inl ?_)
    rw [← hold'] at hregions
    exact hregions.symm
  · exact absurd rfl (hnew (s.row line) hrow)
  · have hm : m = .analyze line := hanalyzed
    subst hm
    rcases analyze_told h.sheet hs with htold | hsame
    · exact Or.inl htold
    · exact Or.inr (Or.inl hsame)
  · have hid : old.id = line := (congrArg Row.id hr).symm
    refine Or.inr (Or.inr ⟨hid ▸ hm, ?_, ?_⟩)
    · rw [← Sheet.map_id_rows, hrows, ← hid]
      rfl
    · exact congrArg (fun r => r.state.regions) hr

theorem Leads.regionsOf {ok : Move → Prop} (hok : ∀ m, ok m → m.keepsDeliveries = true ∧ m ≠ .remove line)
    (hl : Leads ok s t) (h : s.WellFormed) (hs : line ∈ s.document.order) (ht : line ∈ t.document.order) :
    Heard s t (.lineChanged line) ∨ t.regionsOf line = s.regionsOf line := by
  induction hl with
  | refl => exact Or.inr rfl
  | @tail t m hl hm ha ih =>
    have hfollows := (hl.mono fun m hm => (hok m hm).1).follows
    have hnext := act_follows t (hok m hm).1
    have hmid := hfollows.mem_between hnext h hs ht
    rcases ih hmid with hheard | hsame
    · exact Or.inl (hfollows.heard_before hnext hheard)
    · rcases act_regionsOf (hl.wellFormed h) ha hmid ht with hheard | hsame' | ⟨hremove, -⟩
      · exact Or.inl (hfollows.heard_after hnext hheard)
      · exact Or.inr (hsame'.trans hsame)
      · exact absurd hremove (hok m hm).2

/-- a call takes out the line while it is the only one, so that it is emptied instead -/
def Empties (s : Session) (line : LineId) (c : Call) : Prop := c = .perform (.remove line) ∧ s.document.order = [line]

/-- one of the calls does -/
def EmptiesIn (s : Session) (line : LineId) : List Call → Prop
  | [] => False
  | c :: cs => s.Empties line c ∨ (s.call c).EmptiesIn line cs

theorem call_regionsOf (h : s.WellFormed) {c : Call} (hs : line ∈ s.document.order)
    (ht : line ∈ (s.call c).document.order) (hq : ¬ Heard s (s.call c) (.lineChanged line)) :
    (s.Empties line c → (s.call c).regionsOf line = {}) ∧
      (¬ s.Empties line c → (s.call c).regionsOf line = s.regionsOf line) := by
  by_cases hc : c = .perform (.remove line)
  · subst hc
    have hact := act_regionsOf (m := .remove line) h trivial hs ht
    refine ⟨?_, ?_⟩
    · rintro ⟨-, honly⟩
      have hrow : .new line [] ∈ (s.remove line).2.rows := by
        rw [(remove_only_rows h.sheet honly).2]
        exact List.mem_singleton_self _
      exact congrArg (fun r => r.state.regions) (Sheet.row_id hrow)
    · intro hne
      rcases hact with hheard | hsame | ⟨-, honly, -⟩
      · exact absurd hheard hq
      · exact hsame
      · exact absurd ⟨rfl, honly⟩ hne
  · refine ⟨fun he => absurd he.1 hc, fun _ => ?_⟩
    have hok : ∀ m, c.Makes m → m.keepsDeliveries = true ∧ m ≠ .remove line := by
      intro m hm
      refine ⟨hm.keepsDeliveries, ?_⟩
      rintro rfl
      exact hc hm.remove
    exact ((call_leads h c).regionsOf hok h hs ht).resolve_left hq

theorem calls_regionsOf (h : s.WellFormed) (cs : List Call) (hs : line ∈ s.document.order)
    (ht : line ∈ (s.calls cs).document.order) (hq : ¬ Heard s (s.calls cs) (.lineChanged line)) :
    (s.EmptiesIn line cs → (s.calls cs).regionsOf line = {}) ∧
      (¬ s.EmptiesIn line cs → (s.calls cs).regionsOf line = s.regionsOf line) := by
  induction cs generalizing s with
  | nil => exact ⟨False.elim, fun _ => rfl⟩
  | cons c cs ih =>
    have hw : (s.call c).WellFormed := (call_leads h c).wellFormed h
    have hfollows := call_follows h c
    have hrest := (calls_leads hw cs).follows
    have hmid := hfollows.mem_between hrest h hs ht
    obtain ⟨hempty, hkept⟩ := call_regionsOf h hs hmid fun he => hq (hfollows.heard_before hrest he)
    obtain ⟨hempty', hkept'⟩ := ih hw hmid ht fun he => hq (hfollows.heard_after hrest he)
    refine ⟨?_, ?_⟩
    · rintro (hc | hcs)
      · by_cases hcs : (s.call c).EmptiesIn line cs
        · exact hempty' hcs
        · exact (hkept' hcs).trans (hempty hc)
      · exact hempty' hcs
    · intro hne
      exact (hkept' fun hcs => hne (Or.inr hcs)).trans (hkept fun hc => hne (Or.inl hc))

/-- **What goes unreported.** Anything is done to a session, a line is there before and after, and some subscriber was not
told that the line changed. Then its regions differ exactly if the line was taken out while it was the only one, and had
regions before: it is emptied and forgotten at once, and when it is analysed again there is nothing to compare with. -/
theorem unreported_iff (h : Reachable s) {i : Nat} (hi : i < s.subscribers) (cs : List Call)
    (hs : line ∈ s.document.order) (ht : line ∈ (s.calls cs).document.order)
    (hq : ⟨i, .lineChanged line⟩ ∉ s.since (s.calls cs)) :
    (s.calls cs).regionsOf line ≠ s.regionsOf line ↔ s.EmptiesIn line cs ∧ s.regionsOf line ≠ {} := by
  obtain ⟨hempty, hkept⟩ := calls_regionsOf h.wellFormed cs hs ht fun he => hq (he i hi)
  refine ⟨?_, ?_⟩
  · intro hne
    have hin : s.EmptiesIn line cs := by
      by_contra hout
      exact hne (hkept hout)
    refine ⟨hin, fun hnone => hne ?_⟩
    rw [hempty hin, hnone]
  · rintro ⟨hin, hsome⟩
    rw [hempty hin]
    exact hsome.symm

/-- two lines, the first one a comment that is not closed; both are taken out -/
theorem unreported_iff_two_lines :
    let s := ((start commentsAndBraces (.ofText ['<', '\n'])).subscribe).calls [.perform .rehighlight]
    let cs : List Call := [.perform (.remove ⟨1⟩), .perform (.remove ⟨0⟩), .perform .rehighlight]
    Reachable s ∧ 0 < s.subscribers ∧ ⟨0⟩ ∈ s.document.order ∧ ⟨0⟩ ∈ (s.calls cs).document.order ∧
      ⟨0, .lineChanged ⟨0⟩⟩ ∉ s.since (s.calls cs) ∧
      ((s.calls cs).regionsOf ⟨0⟩ ≠ s.regionsOf ⟨0⟩ ↔ s.EmptiesIn ⟨0⟩ cs ∧ s.regionsOf ⟨0⟩ ≠ {}) := by
  intro s cs
  have h : Reachable s := ((Reachable.start _ (.ofText _)).subscribe).calls _
  have hi : 0 < s.subscribers := by decide +kernel
  have hs : ⟨0⟩ ∈ s.document.order := by decide +kernel
  have ht : ⟨0⟩ ∈ (s.calls cs).document.order := by decide +kernel
  have hq : ⟨0, .lineChanged ⟨0⟩⟩ ∉ s.since (s.calls cs) := by decide +kernel
  exact ⟨h, hi, hs, ht, hq, unreported_iff h hi cs hs ht hq⟩

/-- a comment that is not closed is the only line and is taken out; analysed again, it has other regions than before, and
the subscriber hears nothing -/
theorem emptied_unreported :
    let s := ((start commentsAndBraces (.ofText ['<'])).subscribe).calls [.perform .rehighlight]
    let t := s.calls [.perform (.remove ⟨0⟩), .perform .rehighlight]
    Reachable s ∧ 0 < s.subscribers ∧ ⟨0⟩ ∈ s.document.order ∧ ⟨0⟩ ∈ t.document.order ∧
      t.regionsOf ⟨0⟩ ≠ s.regionsOf ⟨0⟩ ∧ ⟨0, .lineChanged ⟨0⟩⟩ ∉ s.since t := by
  refine ⟨((Reachable.start _ (.ofText _)).subscribe).calls _, ?_⟩
  decide +kernel

end Session

end Linewise
