import Ja3Proxy.AdmissionState
import Ja3Proxy.TransitionRuns

/-! Wake-ups of `Ticket::wait` under every interleaving of its steps.
A change of the state and the `notify_waiters` call that announces it are separate steps,
as are arming a `Notified`, the check under the lock and the sleep. -/
namespace AdmissionWakeup

open TransportErrors AdmissionState TransitionRuns

variable {κ : Type} [DecidableEq κ]

/-- Where the owner of a ticket stands. The flag of an armed `Notified` says whether a
`notify_waiters` call has reached it. -/
inductive Phase where
  | fresh
  | armed (notified : Bool)
  | checked (notified : Bool)
  | asleep (notified : Bool)
  | starting
  | running
  | releasing
  deriving DecidableEq, Repr

structure Waiter (κ : Type) where
  ticket : Ticket κ
  phase : Phase
  deriving DecidableEq, Repr

structure World (κ : Type) where
  state : State κ
  tasks : ℕ → Option (Waiter κ)
  issued : ℕ

inductive Event (κ : Type) where
  | enter (key : κ)
  | arm (task : ℕ)
  | check (task : ℕ)
  | sleep (task : ℕ)
  | wake (task : ℕ)
  | drop (task : ℕ)
  | notify (task : ℕ)
  deriving DecidableEq, Repr

def World.initial : World κ := ⟨.initial, fun _ => none, 0⟩

def World.set (w : World κ) (n : ℕ) (x : Option (Waiter κ)) : World κ :=
  { w with tasks := Function.update w.tasks n x }

def Phase.notify : Phase → Phase
  | .armed _ => .armed true
  | .checked _ => .checked true
  | .asleep _ => .asleep true
  | p => p

def World.notifyWaiters (w : World κ) : World κ :=
  { w with tasks := fun n => (w.tasks n).map fun x => { x with phase := x.phase.notify } }

def enterStep (L : Limits) (w : World κ) (key : κ) : Option (World κ) :=
  match enter L w.state key with
  | none => none
  | some (s, .error _) => some { w with state := s }
  | some (s, .ok t) =>
    some (({ w with state := s, issued := w.issued + 1 } : World κ).set w.issued
      (some ⟨t, if t.active then .running else .fresh⟩))

def checkStep (L : Limits) (w : World κ) (n : ℕ) (t : Ticket κ) (flag : Bool) :
    Option (World κ) :=
  match t.id with
  | none => none
  | some id =>
    match tryStart L w.state t.key id with
    | none => none
    | some (s, false) => some (({ w with state := s } : World κ).set n (some ⟨t, .checked flag⟩))
    | some (s, true) =>
      some (({ w with state := s } : World κ).set n (some ⟨⟨t.key, none, true⟩, .starting⟩))

/-- A wait future can be dropped before its first poll and at its only await, a running
ticket at any time. -/
def droppable : Phase → Bool
  | .fresh | .asleep _ | .running => true
  | _ => false

def next (L : Limits) (w : World κ) : Event κ → Option (World κ)
  | .enter key => enterStep L w key
  | .arm n =>
    match w.tasks n with
    | some ⟨t, .fresh⟩ => some (w.set n (some ⟨t, .armed false⟩))
    | _ => none
  | .check n =>
    match w.tasks n with
    | some ⟨t, .armed flag⟩ => checkStep L w n t flag
    | _ => none
  | .sleep n =>
    match w.tasks n with
    | some ⟨t, .checked flag⟩ => some (w.set n (some ⟨t, .asleep flag⟩))
    | _ => none
  | .wake n =>
    match w.tasks n with
    | some ⟨t, .asleep true⟩ => some (w.set n (some ⟨t, .fresh⟩))
    | _ => none
  | .drop n =>
    match w.tasks n with
    | some ⟨t, p⟩ =>
      if droppable p then (dropTicket w.state t).map fun s =>
        ({ w with state := s } : World κ).set n (some ⟨t, .releasing⟩)
      else none
    | none => none
  | .notify n =>
    match w.tasks n with
    | some ⟨t, .starting⟩ => some (w.notifyWaiters.set n (some ⟨t, .running⟩))
    | some ⟨_, .releasing⟩ => some (w.notifyWaiters.set n none)
    | _ => none

def machine (L : Limits) : Machine (World κ) (Event κ) := ⟨.initial, next L⟩

def Pending (w : World κ) : Prop :=
  ∃ n x, w.tasks n = some x ∧ (x.phase = .starting ∨ x.phase = .releasing)

def Startable (L : Limits) (s : State κ) (t : Ticket κ) : Prop :=
  ∃ id i, t.id = some id ∧ selectFront L s t.key id = some (some i)

/-- Past its check and not notified: only a later notification moves this task. -/
def Stranded (p : Phase) : Prop := p = .checked false ∨ p = .asleep false

def Quiet (L : Limits) (w : World κ) : Prop :=
  ∀ n x, w.tasks n = some x → Stranded x.phase → ¬ Startable L w.state x.ticket

structure Invariant (L : Limits) (w : World κ) : Prop where
  shape : Shape w.state
  unissued : ∀ n, w.issued ≤ n → w.tasks n = none
  heard : Pending w ∨ Quiet L w

theorem startNew_blocks {L : Limits} {s : State κ} {key : κ} (h : Shape s)
    (hc : canStart L s key = some true) (t : Ticket κ) : ¬ Startable L (s.startNew key) t := by
  rintro ⟨id, i, -, hsel⟩
  obtain ⟨_, hw, _, hsat⟩ := canStart_true hc
  obtain ⟨_, p, _, before, after, ho, _, _, hp, hact, _⟩ := selectFront_some hsel
  have hmem : t.key ∈ s.order := by
    have : t.key ∈ (s.startNew key).order := by rw [ho]; simp
    exact this
  have hne : t.key ≠ key := by
    rintro rfl
    exact (h.mem_order t.key).mp hmem hw
  have hp' : s.partitions.lookup t.key = some p := by
    simpa [State.startNew, AList.lookup_insert_ne hne] using hp
  have hel : eligible L s t.key = true := eligible_iff.mpr ⟨p, hp', hact⟩
  rw [hsat t.key hmem] at hel
  cases hel

private theorem eligible_enqueue {L : Limits} {s : State κ} (key : κ) (h : Shape s) {k : κ}
    (hk : k ∈ s.order) : eligible L (s.enqueue key) k = eligible L s k := by
  by_cases hkey : k = key
  · subst k
    simp [eligible, State.enqueue, h.lookup hk]
  · simp [eligible, State.enqueue, AList.lookup_insert_ne hkey]

private theorem concat_eq_split {α : Type} {l before after : List α} {a b : α}
    (h : l ++ [b] = before ++ a :: after) :
    (a = b ∧ before = l) ∨ ∃ mid, l = before ++ a :: mid := by
  rcases List.eq_nil_or_concat after with rfl | ⟨mid, c, rfl⟩
  · obtain ⟨hl, hb⟩ := List.append_inj' h rfl
    exact Or.inl ⟨(List.singleton_inj.mp hb).symm, hl.symm⟩
  · rw [List.concat_eq_append, ← List.cons_append, ← List.append_assoc] at h
    exact Or.inr ⟨mid, (List.append_inj' h rfl).1⟩

/-- A ticket that may start after another was queued could start before. -/
theorem startable_enqueue {L : Limits} {s : State κ} {key : κ} (h : Shape s)
    (hc : canStart L s key = some false) {t : Ticket κ} (ht : Startable L (s.enqueue key) t) :
    Startable L s t := by
  obtain ⟨id, i, hid, hsel⟩ := ht
  obtain ⟨ha, p, rest, before, after, ho, _, hmin, hp, hact, hw⟩ := selectFront_some hsel
  have ha' : s.active < L.activeLimit := ha
  have hen : entry (s.enqueue key).partitions t.key = p := entry_of_lookup hp
  -- A place that the old order already had is selected there as well.
  have old : ∀ mid, s.order = before ++ t.key :: mid → Startable L s t := by
    intro mid hs
    have hin : t.key ∈ s.order := by rw [hs]; simp
    have hbefore : ∀ k ∈ before, eligible L s k = false := by
      intro k hk
      rw [← eligible_enqueue key h (by rw [hs]; simp [hk])]
      exact hmin k hk
    have hl := h.lookup hin
    have hwait : (entry s.partitions t.key).waiting ≠ [] := (h.mem_order _).mp hin
    obtain ⟨rest', hrest⟩ : ∃ rest', (entry s.partitions t.key).waiting = id :: rest' := by
      obtain ⟨b, rest', hb⟩ := List.exists_cons_of_ne_nil hwait
      rw [← hen] at hw
      by_cases hk : t.key = key
      · simp only [State.enqueue, entry_insert, hk, ↓reduceIte] at hw
        rw [← hk, hb, List.cons_append] at hw
        exact ⟨rest', by rw [hb, (List.cons.inj hw).1]⟩
      · simp only [State.enqueue, entry_insert, hk, ↓reduceIte] at hw
        exact ⟨rest, hw⟩
    have hactive : (entry s.partitions t.key).active < L.partitionActiveLimit := by
      rw [← hen] at hact
      by_cases hk : t.key = key
      · simpa [State.enqueue, hk] using hact
      · simpa [State.enqueue, hk] using hact
    exact ⟨id, _, hid, selectFront_of_front ha' hs hbefore hl hactive hrest⟩
  by_cases hempty : (entry s.partitions key).waiting = []
  · have ho' : s.order ++ [key] = before ++ t.key :: after := by
      rw [← ho]
      simp [State.enqueue, hempty]
    rcases concat_eq_split ho' with ⟨hk, rfl⟩ | ⟨mid, hs⟩
    · -- The new partition was selected, so nothing else is eligible and it could have started.
      exfalso
      have hsame : (entry s.partitions key).active < L.partitionActiveLimit := by
        rw [← hen] at hact
        simpa [State.enqueue, hk] using hact
      rcases canStart_false hc with hfull | hsat | hwait | ⟨k, hin, hel⟩
      · omega
      · omega
      · exact hwait hempty
      · have := hmin k hin
        rw [eligible_enqueue key h hin, hel] at this
        cases this
    · exact old mid hs
  · exact old after (by simpa [State.enqueue, hempty] using ho)

omit [DecidableEq κ] in
@[simp] theorem set_tasks (w : World κ) (n m : ℕ) (x : Option (Waiter κ)) :
    (w.set n x).tasks m = if m = n then x else w.tasks m := by
  simp [World.set, Function.update_apply]

omit [DecidableEq κ] in
theorem pending_set {w : World κ} {n : ℕ} {x : Waiter κ} {y : Option (Waiter κ)}
    (hx : w.tasks n = some x) (hp : x.phase ≠ .starting ∧ x.phase ≠ .releasing)
    (h : Pending w) : Pending (w.set n y) := by
  obtain ⟨m, z, hz, hphase⟩ := h
  have hm : m ≠ n := by
    rintro rfl
    have hzx : z = x := Option.some.inj (hz.symm.trans hx)
    rw [hzx] at hphase
    rcases hphase with hs | hr
    · exact hp.1 hs
    · exact hp.2 hr
  exact ⟨m, z, by simpa [hm] using hz, hphase⟩

theorem quiet_set {L : Limits} {w : World κ} {n : ℕ} {x : Waiter κ} (h : Quiet L w)
    (hx : Stranded x.phase → ¬ Startable L w.state x.ticket) : Quiet L (w.set n (some x)) := by
  intro m y hy hs
  by_cases hm : m = n
  · have hxy : x = y := by simpa [hm] using hy
    subst hxy
    exact hx hs
  · exact h m y (by simpa [hm] using hy) hs

/-- A silent step: the state stays, and one task moves between unannounced phases. -/
theorem invariant_silent {L : Limits} {w : World κ} {n : ℕ} {t : Ticket κ} {p q : Phase}
    (h : Invariant L w) (hn : w.tasks n = some ⟨t, p⟩) (hp : p ≠ .starting ∧ p ≠ .releasing)
    (hq : Stranded q → Stranded p ∨ ¬ Startable L w.state t) :
    Invariant L (w.set n (some ⟨t, q⟩)) := by
  refine ⟨h.shape, ?_, ?_⟩
  · intro m hm
    have hne : m ≠ n := by
      rintro rfl
      rw [h.unissued m hm] at hn
      cases hn
    simpa [hne] using h.unissued m hm
  · rcases h.heard with hpend | hquiet
    · exact Or.inl (pending_set hn hp hpend)
    · refine Or.inr (quiet_set hquiet ?_)
      intro hs
      rcases hq hs with hp' | hblocked
      · exact hquiet n ⟨t, p⟩ hn hp'
      · exact hblocked

theorem invariant_announced {L : Limits} {w : World κ} {n : ℕ} {x y : Waiter κ} {s : State κ}
    (h : Invariant L w) (hn : w.tasks n = some x) (hs : Shape s)
    (hy : y.phase = .starting ∨ y.phase = .releasing) :
    Invariant L (({ w with state := s } : World κ).set n (some y)) := by
  refine ⟨hs, ?_, Or.inl ⟨n, y, by simp, hy⟩⟩
  intro m hm
  have hne : m ≠ n := by
    rintro rfl
    rw [h.unissued m hm] at hn
    cases hn
  simpa [hne] using h.unissued m hm

theorem quiet_notifyWaiters (L : Limits) (w : World κ) {n : ℕ} {x : Option (Waiter κ)}
    (hx : ∀ y ∈ x, ¬ Stranded y.phase) : Quiet L (w.notifyWaiters.set n x) := by
  intro m y hy hs
  exfalso
  by_cases hm : m = n
  · subst m
    exact hx y (by simpa using hy) hs
  · rw [set_tasks, if_neg hm] at hy
    obtain ⟨z, _, rfl⟩ := Option.map_eq_some_iff.mp hy
    cases hz : z.phase <;> simp [Stranded, Phase.notify, hz] at hs

theorem invariant_notify {L : Limits} {w : World κ} {n : ℕ} {x : Waiter κ}
    {y : Option (Waiter κ)} (h : Invariant L w) (hn : w.tasks n = some x)
    (hy : ∀ z ∈ y, ¬ Stranded z.phase) : Invariant L (w.notifyWaiters.set n y) := by
  refine ⟨h.shape, ?_, Or.inr (quiet_notifyWaiters L w hy)⟩
  intro m hm
  have hnone := h.unissued m hm
  have hne : m ≠ n := by
    rintro rfl
    rw [hnone] at hn
    cases hn
  simp [hne, World.notifyWaiters, hnone]

/-- Entering changes the state without any notification. -/
theorem invariant_enter {L : Limits} {w v : World κ} {key : κ} (h : Invariant L w)
    (he : enterStep L w key = some v) : Invariant L v := by
  have hfresh := h.unissued w.issued le_rfl
  have issue : ∀ (s : State κ) (x : Waiter κ), Shape s →
      (∀ t, Startable L s t → Startable L w.state t) → ¬ Stranded x.phase →
      Invariant L (({ w with state := s, issued := w.issued + 1 } : World κ).set w.issued
        (some x)) := by
    intro s x hs hback hx
    refine ⟨hs, ?_, ?_⟩
    · intro m hm
      have hm' : w.issued + 1 ≤ m := hm
      have hne : m ≠ w.issued := by omega
      simpa [hne] using h.unissued m (by omega)
    · rcases h.heard with ⟨m, y, hy, hp⟩ | hquiet
      · refine Or.inl ⟨m, y, ?_, hp⟩
        have hne : m ≠ w.issued := by
          rintro rfl
          rw [hfresh] at hy
          cases hy
        simpa [hne] using hy
      · refine Or.inr (quiet_set ?_ fun hst => absurd hst hx)
        intro m y hy hst hstart
        exact hquiet m y hy hst (hback _ hstart)
  unfold enterStep at he
  split at he
  · cases he
  · rename_i s err hen
    rcases enter_cases hen with ⟨_, _, hr⟩ | ⟨_, _, rfl, _⟩ | ⟨_, _, _, hr⟩
    · cases hr
    · cases he
      exact h
    · cases hr
  · rename_i s t hen
    obtain rfl := Option.some.inj he
    have hs := shape_enter h.shape hen
    rcases enter_cases hen with ⟨hc, rfl, hr⟩ | ⟨_, _, _, hr⟩ | ⟨hc, _, rfl, hr⟩
    · cases hr
      refine issue _ _ hs ?_ (by simp [Stranded])
      intro t ht
      exact absurd ht (startNew_blocks h.shape hc t)
    · cases hr
    · cases hr
      exact issue _ _ hs (fun t ht => startable_enqueue h.shape hc ht) (by simp [Stranded])

theorem invariant_check {L : Limits} {w v : World κ} {n : ℕ} {t : Ticket κ} {flag : Bool}
    (h : Invariant L w) (hn : w.tasks n = some ⟨t, .armed flag⟩)
    (he : checkStep L w n t flag = some v) : Invariant L v := by
  unfold checkStep at he
  split at he
  · cases he
  rename_i id hid
  split at he
  · cases he
  · rename_i s hs
    obtain rfl := Option.some.inj he
    rcases tryStart_cases hs with ⟨hsel, rfl, _⟩ | ⟨hb, _⟩
    · refine invariant_silent h hn (by simp) fun _ => Or.inr ?_
      rintro ⟨id', i, hid', hsel'⟩
      obtain rfl := Option.some.inj (hid.symm.trans hid')
      rw [hsel] at hsel'
      cases hsel'
    · cases hb
  · rename_i s hs
    obtain rfl := Option.some.inj he
    exact invariant_announced h hn (shape_tryStart h.shape hs) (Or.inl rfl)

theorem invariant_step {L : Limits} {w v : World κ} {e : Event κ} (h : Invariant L w)
    (hn : next L w e = some v) : Invariant L v := by
  cases e with
  | enter key => exact invariant_enter h hn
  | arm n =>
    simp only [next] at hn
    split at hn
    · rename_i t ht
      obtain rfl := Option.some.inj hn
      exact invariant_silent h ht (by simp) (by simp [Stranded])
    · cases hn
  | check n =>
    simp only [next] at hn
    split at hn
    · rename_i t flag ht
      exact invariant_check h ht hn
    · cases hn
  | sleep n =>
    simp only [next] at hn
    split at hn
    · rename_i t flag ht
      obtain rfl := Option.some.inj hn
      exact invariant_silent h ht (by simp) fun hs => Or.inl (by simpa [Stranded] using hs)
    · cases hn
  | wake n =>
    simp only [next] at hn
    split at hn
    · rename_i t ht
      obtain rfl := Option.some.inj hn
      exact invariant_silent h ht (by simp) (by simp [Stranded])
    · cases hn
  | drop n =>
    simp only [next] at hn
    split at hn
    · rename_i t p ht
      split at hn
      · obtain ⟨s, hs, rfl⟩ := Option.map_eq_some_iff.mp hn
        exact invariant_announced h ht (shape_dropTicket h.shape hs) (Or.inr rfl)
      · cases hn
    · cases hn
  | notify n =>
    simp only [next] at hn
    split at hn
    · rename_i t ht
      obtain rfl := Option.some.inj hn
      exact invariant_notify h ht (by simp [Stranded])
    · rename_i t ht
      obtain rfl := Option.some.inj hn
      exact invariant_notify h ht (by simp)
    · cases hn

theorem invariant_initial (L : Limits) : Invariant L (World.initial : World κ) :=
  ⟨shape_initial, fun _ _ => rfl, Or.inr (by intro n x hx; cases hx)⟩

theorem reachable_invariant {L : Limits} {w : World κ} (h : (machine L).Reachable w) :
    Invariant L w :=
  Machine.reachable_preserves (invariant_initial L) (fun _ _ _ => invariant_step) h

theorem startable_of_tryStart {L : Limits} {s u : State κ} {t : Ticket κ} {id : UInt64}
    (hid : t.id = some id) (h : tryStart L s t.key id = some (u, true)) : Startable L s t := by
  rcases tryStart_cases h with
    ⟨_, _, hb⟩ | ⟨_, ha, _, p, rest, before, after, ho, hmin, hp, hact, hw, _⟩
  · cases hb
  · exact ⟨id, _, hid, selectFront_of_front ha ho hmin hp hact hw⟩

/-- No wake-up is lost: a sleeping ticket that nobody has notified and whose `try_start`
would succeed is still owed a pending `notify_waiters` call. -/
theorem no_lost_wakeup {L : Limits} {w : World κ} (h : (machine L).Reachable w) {n : ℕ}
    {t : Ticket κ} (hn : w.tasks n = some ⟨t, .asleep false⟩) {id : UInt64}
    (hid : t.id = some id) {u : State κ} (hs : tryStart L w.state t.key id = some (u, true)) :
    Pending w := by
  rcases (reachable_invariant h).heard with hp | hq
  · exact hp
  · exact absurd (startable_of_tryStart hid hs) (hq n _ hn (Or.inr rfl))

/-- The assumptions meet: the holder of the only slot is dropped while a ticket sleeps. -/
theorem no_lost_wakeup_release :
    ∃ w : World String, (machine ⟨1, 1, 2, 2⟩).Reachable w ∧
      w.tasks 1 = some ⟨⟨"a", some 0, false⟩, .asleep false⟩ ∧
      (∃ u, tryStart ⟨1, 1, 2, 2⟩ w.state "a" 0 = some (u, true)) ∧ Pending w := by
  have hrun : ((machine ⟨1, 1, 2, 2⟩).run World.initial
      [.enter "a", .enter "a", .arm 1, .check 1, .sleep 1, .drop 0]).any
        (fun w => w.tasks 1 = some ⟨⟨"a", some 0, false⟩, .asleep false⟩ ∧
          (tryStart ⟨1, 1, 2, 2⟩ w.state "a" 0).any (·.2)) := by decide
  obtain ⟨w, hw, hb⟩ := (Option.any_eq_true _ _).mp hrun
  obtain ⟨ht, hs⟩ := of_decide_eq_true hb
  obtain ⟨⟨u, b⟩, hu, rfl⟩ := (Option.any_eq_true _ _).mp hs
  exact ⟨w, ⟨_, hw⟩, ht, ⟨u, hu⟩, no_lost_wakeup ⟨_, hw⟩ ht rfl hu⟩

end AdmissionWakeup
