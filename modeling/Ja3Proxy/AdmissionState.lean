import Mathlib.Algebra.Group.Nat.Defs
import Ja3Proxy.FiniteMaps
import Ja3Proxy.TransportErrors

/-! The state of `Admission` and its three operations (`src/admission.rs`).
An operation runs under the state lock and is one function. `none` stands for a panic:
an index out of bounds, a missing map key, an `unwrap` of `None` or a subtraction below zero.
The notifications that follow a change belong to the wake-up model. -/
namespace AdmissionState

open FiniteMaps TransportErrors

structure Partition where
  active : ℕ := 0
  waiting : List UInt64 := []
  deriving DecidableEq, Repr

structure Limits where
  activeLimit : ℕ
  partitionActiveLimit : ℕ
  queueLimit : ℕ
  partitionQueueLimit : ℕ
  deriving DecidableEq, Repr

structure Limits.Positive (L : Limits) : Prop where
  active : 0 < L.activeLimit
  partitionActive : 0 < L.partitionActiveLimit
  queue : 0 < L.queueLimit
  partitionQueue : 0 < L.partitionQueueLimit

structure Ticket (κ : Type) where
  key : κ
  id : Option UInt64
  active : Bool
  deriving DecidableEq, Repr

variable {κ : Type} [DecidableEq κ]

structure State (κ : Type) where
  active : ℕ
  queued : ℕ
  next : UInt64
  partitions : AList (fun _ : κ => Partition)
  order : List κ
  deriving DecidableEq

def State.initial : State κ := ⟨0, 0, 0, ∅, []⟩

def checkedSub (a b : ℕ) : Option ℕ := if b ≤ a then some (a - b) else none

/-- `order.iter().all(|key| partitions[key].active >= limit)`, stopping at the first `false`. -/
def allSaturated (L : Limits) (m : AList (fun _ : κ => Partition)) : List κ → Option Bool
  | [] => some true
  | key :: rest =>
    match m.lookup key with
    | none => none
    | some p => if L.partitionActiveLimit ≤ p.active then allSaturated L m rest else some false

def canStart (L : Limits) (s : State κ) (key : κ) : Option Bool :=
  if s.active < L.activeLimit &&
      (s.partitions.lookup key).all fun p =>
        p.active < L.partitionActiveLimit && p.waiting.isEmpty then
    allSaturated L s.partitions s.order
  else some false

/-- `partitions.entry(key).or_default()` -/
def entry (m : AList (fun _ : κ => Partition)) (key : κ) : Partition := (m.lookup key).getD {}

def State.startNew (s : State κ) (key : κ) : State κ :=
  { s with
    active := s.active + 1
    partitions := s.partitions.insert key
      { entry s.partitions key with active := (entry s.partitions key).active + 1 } }

def State.enqueue (s : State κ) (key : κ) : State κ :=
  { s with
    queued := s.queued + 1
    next := s.next + 1
    partitions := s.partitions.insert key
      { entry s.partitions key with waiting := (entry s.partitions key).waiting ++ [s.next] }
    order := if (entry s.partitions key).waiting.isEmpty then s.order ++ [key] else s.order }

def State.full (L : Limits) (s : State κ) (key : κ) : Bool :=
  L.queueLimit ≤ s.queued ||
    (s.partitions.lookup key).any fun p => L.partitionQueueLimit ≤ p.waiting.length

def enter (L : Limits) (s : State κ) (key : κ) :
    Option (State κ × Except TransportError (Ticket κ)) :=
  match canStart L s key with
  | none => none
  | some true => some (s.startNew key, .ok ⟨key, none, true⟩)
  | some false =>
    if s.full L key then some (s, .error (.fromCode .busy))
    else some (s.enqueue key, .ok ⟨key, some s.next, false⟩)

def eligible (L : Limits) (s : State κ) (candidate : κ) : Bool :=
  (s.partitions.lookup candidate).any fun p => p.active < L.partitionActiveLimit

/-- The checks of `try_start`: the position of `key` in the order if the ticket may start. -/
def selectFront (L : Limits) (s : State κ) (key : κ) (id : UInt64) : Option (Option ℕ) :=
  if L.activeLimit ≤ s.active then some none
  else
    match s.order.findIdx? (eligible L s) with
    | none => some none
    | some index => do
      let candidate ← s.order[index]?
      if candidate ≠ key then return none
      let partition ← s.partitions.lookup key
      if partition.waiting.head? ≠ some id then return none
      return some index

def tryStart (L : Limits) (s : State κ) (key : κ) (id : UInt64) : Option (State κ × Bool) := do
  match ← selectFront L s key id with
  | none => return (s, false)
  | some index =>
    let partition ← s.partitions.lookup key
    let waiting := partition.waiting.tail
    let queued ← checkedSub s.queued 1
    return ({ s with
      active := s.active + 1
      queued := queued
      partitions := s.partitions.insert key ⟨partition.active + 1, waiting⟩
      order := s.order.eraseIdx index ++ if waiting.isEmpty then [] else [key] }, true)

def Ticket.leave (t : Ticket κ) (p : Partition) : Option Partition :=
  if t.active then do
    let active ← checkedSub p.active 1
    return { p with active := active }
  else
    match t.id with
    | some id => some { p with waiting := p.waiting.filter (· ≠ id) }
    | none => some p

/-- `Drop for Ticket`, without its notification. -/
def dropTicket (s : State κ) (t : Ticket κ) : Option (State κ) := do
  let before ← s.partitions.lookup t.key
  let p ← t.leave before
  let removeQueue := p.waiting.isEmpty
  let removePartition := removeQueue && p.active == 0
  let active ← (if t.active then checkedSub s.active 1 else some s.active)
  let queued ← (if t.active then some s.queued else checkedSub s.queued 1)
  return { s with
    active := active
    queued := queued
    partitions := if removePartition then s.partitions.erase t.key
      else s.partitions.insert t.key p
    order := if removeQueue then s.order.filter (· ≠ t.key) else s.order }

theorem entry_of_lookup {m : AList (fun _ : κ => Partition)} {k : κ} {p : Partition}
    (h : m.lookup k = some p) : entry m k = p := by simp [entry, h]

@[simp] theorem entry_empty (k : κ) : entry (∅ : AList (fun _ : κ => Partition)) k = {} := rfl

@[simp] theorem entry_insert (m : AList (fun _ : κ => Partition)) (a k : κ) (p : Partition) :
    entry (m.insert a p) k = if k = a then p else entry m k := by
  by_cases h : k = a
  · subst k; simp [entry]
  · simp [entry, h, AList.lookup_insert_ne h]

@[simp] theorem entry_erase (m : AList (fun _ : κ => Partition)) (a k : κ) :
    entry (m.erase a) k = if k = a then {} else entry m k := by
  by_cases h : k = a
  · subst k; simp [entry]
  · simp [entry, h, AList.lookup_erase_ne h]

theorem lookup_of_waiting {m : AList (fun _ : κ => Partition)} {k : κ}
    (h : (entry m k).waiting ≠ []) : m.lookup k = some (entry m k) := by
  cases hl : m.lookup k with
  | none => simp [entry, hl] at h
  | some p => simp [entry, hl]

theorem checkedSub_eq_some {a b c : ℕ} : checkedSub a b = some c ↔ b ≤ a ∧ c = a - b := by
  unfold checkedSub
  split
  · simp_all [eq_comm]
  · simp only [reduceCtorEq, false_iff]
    omega

theorem eligible_iff {L : Limits} {s : State κ} {k : κ} :
    eligible L s k = true ↔
      ∃ p, s.partitions.lookup k = some p ∧ p.active < L.partitionActiveLimit := by
  simp [eligible, Option.any_eq_true]

theorem allSaturated_true {L : Limits} {m : AList (fun _ : κ => Partition)} {ks : List κ}
    (h : allSaturated L m ks = some true) :
    ∀ k ∈ ks, ∃ p, m.lookup k = some p ∧ L.partitionActiveLimit ≤ p.active := by
  induction ks with
  | nil => simp
  | cons a ks ih =>
    unfold allSaturated at h
    split at h
    · cases h
    · rename_i p hp
      split at h
      · rename_i hle
        intro k hk
        rcases List.mem_cons.mp hk with rfl | hk
        · exact ⟨p, hp, hle⟩
        · exact ih h k hk
      · cases h

theorem allSaturated_false {L : Limits} {m : AList (fun _ : κ => Partition)} {ks : List κ}
    (h : allSaturated L m ks = some false) :
    ∃ k ∈ ks, ∃ p, m.lookup k = some p ∧ p.active < L.partitionActiveLimit := by
  induction ks with
  | nil => simp [allSaturated] at h
  | cons a ks ih =>
    unfold allSaturated at h
    split at h
    · cases h
    · rename_i p hp
      split at h
      · obtain ⟨k, hk, hp⟩ := ih h
        exact ⟨k, List.mem_cons_of_mem _ hk, hp⟩
      · exact ⟨a, List.mem_cons_self, p, hp, by omega⟩

theorem allSaturated_total {L : Limits} {m : AList (fun _ : κ => Partition)} {ks : List κ}
    (h : ∀ k ∈ ks, ∃ p, m.lookup k = some p) : ∃ b, allSaturated L m ks = some b := by
  induction ks with
  | nil => exact ⟨true, rfl⟩
  | cons a ks ih =>
    obtain ⟨p, hp⟩ := h a List.mem_cons_self
    obtain ⟨b, hb⟩ := ih fun k hk => h k (List.mem_cons_of_mem _ hk)
    unfold allSaturated
    rw [hp]
    by_cases hle : L.partitionActiveLimit ≤ p.active
    · exact ⟨b, by simpa [hle] using hb⟩
    · exact ⟨false, by simp [hle]⟩

theorem canStart_true {L : Limits} {s : State κ} {key : κ} (h : canStart L s key = some true) :
    s.active < L.activeLimit ∧ (entry s.partitions key).waiting = [] ∧
    (∀ p, s.partitions.lookup key = some p → p.active < L.partitionActiveLimit) ∧
    ∀ k ∈ s.order, eligible L s k = false := by
  unfold canStart at h
  split at h
  · rename_i hc
    rw [Bool.and_eq_true, decide_eq_true_eq] at hc
    have hsat : ∀ k ∈ s.order, eligible L s k = false := by
      intro k hk
      obtain ⟨p, hp, hle⟩ := allSaturated_true h k hk
      simp [eligible, hp, hle]
    cases hl : s.partitions.lookup key with
    | none => exact ⟨hc.1, by simp [entry, hl], by simp, hsat⟩
    | some p =>
      rw [hl] at hc
      simp only [Option.all_some, Bool.and_eq_true, decide_eq_true_eq, List.isEmpty_iff] at hc
      refine ⟨hc.1, by simpa [entry, hl] using hc.2.2, ?_, hsat⟩
      intro q hq
      cases hq
      exact hc.2.1
  · cases h

theorem canStart_false {L : Limits} {s : State κ} {key : κ} (h : canStart L s key = some false) :
    L.activeLimit ≤ s.active ∨ L.partitionActiveLimit ≤ (entry s.partitions key).active ∨
    (entry s.partitions key).waiting ≠ [] ∨ ∃ k ∈ s.order, eligible L s k = true := by
  unfold canStart at h
  split at h
  · obtain ⟨k, hk, hp⟩ := allSaturated_false h
    exact Or.inr (Or.inr (Or.inr ⟨k, hk, eligible_iff.mpr hp⟩))
  · rename_i hc
    by_cases ha : s.active < L.activeLimit
    · cases hl : s.partitions.lookup key with
      | none => simp [ha, hl] at hc
      | some p =>
        by_cases hp : p.active < L.partitionActiveLimit
        · have hw : p.waiting ≠ [] := by simpa [ha, hl, hp] using hc
          exact Or.inr (Or.inr (Or.inl (by simpa [entry, hl] using hw)))
        · exact Or.inr (Or.inl (by simp only [entry, hl, Option.getD_some]; omega))
    · exact Or.inl (by omega)

/-- Everything `enter` can do: start at once, refuse, or queue. -/
theorem enter_cases {L : Limits} {s t : State κ} {key : κ} {r : Except TransportError (Ticket κ)}
    (h : enter L s key = some (t, r)) :
    (canStart L s key = some true ∧ t = s.startNew key ∧ r = .ok ⟨key, none, true⟩) ∨
    (canStart L s key = some false ∧ s.full L key = true ∧ t = s ∧
      r = .error (.fromCode .busy)) ∨
    (canStart L s key = some false ∧ s.full L key = false ∧ t = s.enqueue key ∧
      r = .ok ⟨key, some s.next, false⟩) := by
  unfold enter at h
  split at h
  · cases h
  · rename_i hc
    obtain ⟨rfl, rfl⟩ := Prod.mk.inj (Option.some.inj h)
    exact Or.inl ⟨hc, rfl, rfl⟩
  · rename_i hc
    split at h
    · rename_i hf
      obtain ⟨rfl, rfl⟩ := Prod.mk.inj (Option.some.inj h)
      exact Or.inr (Or.inl ⟨hc, hf, rfl, rfl⟩)
    · rename_i hf
      obtain ⟨rfl, rfl⟩ := Prod.mk.inj (Option.some.inj h)
      exact Or.inr (Or.inr ⟨hc, by simpa using hf, rfl, rfl⟩)

private theorem findIdx_split {α : Type} {p : α → Bool} {l : List α} {i : ℕ}
    (h : l.findIdx? p = some i) : ∃ before a after, l = before ++ a :: after ∧
      before.length = i ∧ p a = true ∧ ∀ b ∈ before, p b = false := by
  obtain ⟨hi, hp, hmin⟩ := List.findIdx?_eq_some_iff_getElem.mp h
  refine ⟨l.take i, l[i], l.drop (i + 1), by simp, by simp; omega, hp, ?_⟩
  intro b hb
  obtain ⟨j, hj, rfl⟩ := List.mem_iff_getElem.mp hb
  simp only [List.length_take, Nat.lt_min] at hj
  simpa using hmin j hj.1

/-- The selected ticket is the oldest of the first eligible partition in the order. -/
theorem selectFront_some {L : Limits} {s : State κ} {key : κ} {id : UInt64} {i : ℕ}
    (h : selectFront L s key id = some (some i)) :
    s.active < L.activeLimit ∧ ∃ p rest before after,
      s.order = before ++ key :: after ∧ before.length = i ∧
      (∀ k ∈ before, eligible L s k = false) ∧ s.partitions.lookup key = some p ∧
      p.active < L.partitionActiveLimit ∧ p.waiting = id :: rest := by
  unfold selectFront at h
  split at h
  · cases h
  rename_i ha
  split at h
  · cases h
  rename_i index hf
  obtain ⟨before, a, after, ho, hlen, hel, hmin⟩ := findIdx_split hf
  have hget : s.order[index]? = some a := by rw [ho]; simp [← hlen]
  rw [hget] at h
  by_cases hak : a = key
  · subst a
    obtain ⟨p, hp, hact⟩ := eligible_iff.mp hel
    by_cases hhead : p.waiting.head? = some id
    · obtain ⟨rest, hrest⟩ := List.head?_eq_some_iff.mp hhead
      have hi : index = i := by simpa [hp, hhead] using h
      exact ⟨by omega, p, rest, before, after, ho, hlen.trans hi, hmin, hp, hact, hrest⟩
    · simp [hp, hhead] at h
  · simp [hak] at h

theorem selectFront_of_front {L : Limits} {s : State κ} {key : κ} {id : UInt64} {p : Partition}
    {rest : List UInt64} {before after : List κ} (ha : s.active < L.activeLimit)
    (ho : s.order = before ++ key :: after) (hmin : ∀ k ∈ before, eligible L s k = false)
    (hp : s.partitions.lookup key = some p) (hact : p.active < L.partitionActiveLimit)
    (hw : p.waiting = id :: rest) : selectFront L s key id = some (some before.length) := by
  have hel : eligible L s key = true := eligible_iff.mpr ⟨p, hp, hact⟩
  have hf : s.order.findIdx? (eligible L s) = some before.length := by
    rw [ho, List.findIdx?_append]
    have hnone : before.findIdx? (eligible L s) = none := by
      rw [List.findIdx?_eq_none_iff]
      exact hmin
    simp [hnone, List.findIdx?_cons, hel]
  have hget : s.order[before.length]? = some key := by rw [ho]; simp
  unfold selectFront
  rw [if_neg (by omega), hf]
  simp [hget, hp, hw]

def State.startFront (s : State κ) (key : κ) (p : Partition) (rest : List UInt64)
    (before after : List κ) : State κ :=
  { s with
    active := s.active + 1
    queued := s.queued - 1
    partitions := s.partitions.insert key ⟨p.active + 1, rest⟩
    order := before ++ after ++ if rest.isEmpty then [] else [key] }

/-- Everything `try_start` can do: nothing, or start the selected ticket. -/
theorem tryStart_cases {L : Limits} {s t : State κ} {key : κ} {id : UInt64} {b : Bool}
    (h : tryStart L s key id = some (t, b)) :
    (selectFront L s key id = some none ∧ t = s ∧ b = false) ∨
    (b = true ∧ s.active < L.activeLimit ∧ 0 < s.queued ∧ ∃ p rest before after,
      s.order = before ++ key :: after ∧ (∀ k ∈ before, eligible L s k = false) ∧
      s.partitions.lookup key = some p ∧ p.active < L.partitionActiveLimit ∧
      p.waiting = id :: rest ∧ t = s.startFront key p rest before after) := by
  unfold tryStart at h
  cases hs : selectFront L s key id with
  | none => simp [hs] at h
  | some front =>
    cases front with
    | none =>
      simp only [hs, Option.bind_eq_bind, Option.bind_some, Option.pure_def, Option.some.injEq,
        Prod.mk.injEq] at h
      exact Or.inl ⟨rfl, h.1.symm, h.2.symm⟩
    | some i =>
      obtain ⟨ha, p, rest, before, after, ho, hlen, hmin, hp, hact, hw⟩ := selectFront_some hs
      simp only [hs, hp, hw, Option.bind_eq_bind, Option.bind_some, List.tail_cons] at h
      obtain ⟨q, hq, h⟩ := Option.bind_eq_some_iff.mp h
      obtain ⟨hpos, rfl⟩ := checkedSub_eq_some.mp hq
      obtain ⟨rfl, rfl⟩ := Prod.mk.inj (Option.some.inj h)
      refine Or.inr ⟨rfl, ha, by omega, p, rest, before, after, ho, hmin, hp, hact, hw, ?_⟩
      have herase : s.order.eraseIdx i = before ++ after := by
        rw [ho, ← hlen, List.eraseIdx_append_of_length_le (by omega)]
        simp
      simp [State.startFront, herase]

def store (m : AList (fun _ : κ => Partition)) (key : κ) (p : Partition) :
    AList (fun _ : κ => Partition) :=
  if p.waiting.isEmpty && p.active == 0 then m.erase key else m.insert key p

def State.withoutTicket (s : State κ) (t : Ticket κ) (q : Partition) : State κ :=
  { s with
    active := if t.active then s.active - 1 else s.active
    queued := if t.active then s.queued else s.queued - 1
    partitions := store s.partitions t.key q
    order := if q.waiting.isEmpty then s.order.filter (· ≠ t.key) else s.order }

theorem dropTicket_cases {s u : State κ} {t : Ticket κ} (h : dropTicket s t = some u) :
    ∃ p q, s.partitions.lookup t.key = some p ∧ t.leave p = some q ∧
      (t.active = true → 0 < s.active) ∧ (t.active = false → 0 < s.queued) ∧
      u = s.withoutTicket t q := by
  unfold dropTicket at h
  obtain ⟨p, hp, h⟩ := Option.bind_eq_some_iff.mp h
  obtain ⟨q, hq, h⟩ := Option.bind_eq_some_iff.mp h
  obtain ⟨a, ha, h⟩ := Option.bind_eq_some_iff.mp h
  obtain ⟨n, hn, h⟩ := Option.bind_eq_some_iff.mp h
  cases Option.some.inj h
  refine ⟨p, q, hp, hq, ?_⟩
  cases hact : t.active with
  | true =>
    simp only [hact, ↓reduceIte, checkedSub_eq_some, Option.some.injEq] at ha hn
    exact ⟨by omega, by simp, by simp [State.withoutTicket, store, hact, ha.2, ← hn]⟩
  | false =>
    simp only [hact, Bool.false_eq_true, ↓reduceIte, checkedSub_eq_some, Option.some.injEq]
      at ha hn
    exact ⟨by simp, by omega, by simp [State.withoutTicket, store, hact, hn.2, ← ha]⟩

omit [DecidableEq κ] in
theorem leave_cases {t : Ticket κ} {p q : Partition} (h : t.leave p = some q) :
    (t.active = true ∧ 0 < p.active ∧ q = { p with active := p.active - 1 }) ∨
    (t.active = false ∧ ∃ id, t.id = some id ∧
      q = { p with waiting := p.waiting.filter (· ≠ id) }) ∨
    (t.active = false ∧ t.id = none ∧ q = p) := by
  unfold Ticket.leave at h
  split at h
  · rename_i ha
    obtain ⟨a, hs, h⟩ := Option.bind_eq_some_iff.mp h
    obtain ⟨hle, rfl⟩ := checkedSub_eq_some.mp hs
    exact Or.inl ⟨ha, by omega, (Option.some.inj h).symm⟩
  · rename_i ha
    have ha : t.active = false := by simpa using ha
    split at h
    · rename_i id hid
      exact Or.inr (Or.inl ⟨ha, id, hid, (Option.some.inj h).symm⟩)
    · rename_i hid
      exact Or.inr (Or.inr ⟨ha, hid, (Option.some.inj h).symm⟩)

theorem store_cases (m : AList (fun _ : κ => Partition)) (key : κ) (p : Partition) :
    (p = {} ∧ store m key p = m.erase key) ∨
    ((0 < p.active ∨ p.waiting ≠ []) ∧ store m key p = m.insert key p) := by
  unfold store
  by_cases hp : p.waiting = [] ∧ p.active = 0
  · have hd : p = {} := by cases p; simp_all
    exact Or.inl ⟨hd, by simp [hd]⟩
  · have hb : (p.waiting.isEmpty && p.active == 0) = false := by
      rw [Bool.and_eq_false_imp, List.isEmpty_iff, beq_eq_false_iff_ne]
      exact fun hw ha => hp ⟨hw, ha⟩
    refine Or.inr ⟨?_, by simp [hb]⟩
    by_contra hn
    push Not at hn
    exact hp ⟨hn.2, by omega⟩

theorem store_eq_insert {m : AList (fun _ : κ => Partition)} {key : κ} {p : Partition}
    (h : 0 < p.active ∨ p.waiting ≠ []) : store m key p = m.insert key p := by
  rcases store_cases m key p with ⟨hp, _⟩ | ⟨_, hs⟩
  · simp [hp] at h
  · exact hs

@[simp] theorem entry_store (m : AList (fun _ : κ => Partition)) (key k : κ) (p : Partition) :
    entry (store m key p) k = if k = key then p else entry m k := by
  rcases store_cases m key p with ⟨hp, hs⟩ | ⟨_, hs⟩
  · rw [hs, entry_erase, hp]
  · rw [hs, entry_insert]

theorem total_store {f : Partition → ℕ} (hf : f {} = 0) (m : AList (fun _ : κ => Partition))
    (key : κ) (p : Partition) :
    total f (store m key p) + f (entry m key) = total f m + f p := by
  rcases store_cases m key p with ⟨hp, hs⟩ | ⟨_, hs⟩
  · rw [hs, hp, hf]
    cases hl : m.lookup key with
    | none =>
      have he : m.erase key = m :=
        AList.ext (List.kerase_of_notMem_keys (AList.lookup_eq_none.mp hl))
      simp [entry, hl, he, hf]
    | some q => simpa [entry, hl] using total_erase hl
  · rw [hs]
    exact total_insert hf

theorem lookup_store {m : AList (fun _ : κ => Partition)} {key : κ} {p : Partition} (k : κ) :
    (∃ q, (store m key p).lookup k = some q) ↔
      if k = key then 0 < p.active ∨ p.waiting ≠ [] else ∃ q, m.lookup k = some q := by
  rcases store_cases m key p with ⟨hp, hs⟩ | ⟨hp, hs⟩
  · rw [hs]
    by_cases hk : k = key
    · subst k; simp [hp]
    · simp [hk, AList.lookup_erase_ne hk]
  · rw [hs]
    by_cases hk : k = key
    · subst k; simp [hp]
    · simp [hk, AList.lookup_insert_ne hk]

structure Shape (s : State κ) : Prop where
  order_nodup : s.order.Nodup
  mem_order : ∀ k, k ∈ s.order ↔ (entry s.partitions k).waiting ≠ []

theorem Shape.lookup {s : State κ} (h : Shape s) {k : κ} (hk : k ∈ s.order) :
    s.partitions.lookup k = some (entry s.partitions k) :=
  lookup_of_waiting ((h.mem_order k).mp hk)

theorem Shape.eligible_iff {L : Limits} {s : State κ} (h : Shape s) {k : κ} (hk : k ∈ s.order) :
    eligible L s k = true ↔ (entry s.partitions k).active < L.partitionActiveLimit := by
  simp [eligible, h.lookup hk]

theorem shape_initial : Shape (State.initial : State κ) :=
  ⟨List.nodup_nil, by simp [State.initial]⟩

theorem shape_startNew {s : State κ} (h : Shape s) (key : κ) : Shape (s.startNew key) := by
  refine ⟨h.order_nodup, ?_⟩
  intro k
  by_cases hk : k = key
  · subst k; simpa [State.startNew] using h.mem_order key
  · simpa [State.startNew, hk] using h.mem_order k

theorem shape_enqueue {s : State κ} (h : Shape s) (key : κ) : Shape (s.enqueue key) := by
  by_cases hw : (entry s.partitions key).waiting = []
  · have hnot : key ∉ s.order := fun hm => (h.mem_order key).mp hm hw
    refine ⟨?_, ?_⟩
    · simpa [State.enqueue, hw, List.nodup_append] using
        ⟨h.order_nodup, fun a ha hak => hnot (hak ▸ ha)⟩
    · intro k
      by_cases hk : k = key
      · subst k; simp [State.enqueue, hw]
      · simpa [State.enqueue, hw, hk] using h.mem_order k
  · refine ⟨by simpa [State.enqueue, hw] using h.order_nodup, ?_⟩
    intro k
    by_cases hk : k = key
    · subst k; simpa [State.enqueue, hw] using (h.mem_order key).mpr hw
    · simpa [State.enqueue, hw, hk] using h.mem_order k

theorem shape_enter {L : Limits} {s t : State κ} {key : κ} {r : Except TransportError (Ticket κ)}
    (h : Shape s) (he : enter L s key = some (t, r)) : Shape t := by
  rcases enter_cases he with ⟨_, rfl, _⟩ | ⟨_, _, rfl, _⟩ | ⟨_, _, rfl, _⟩
  · exact shape_startNew h key
  · exact h
  · exact shape_enqueue h key

theorem shape_tryStart {L : Limits} {s t : State κ} {key : κ} {id : UInt64} {b : Bool}
    (h : Shape s) (he : tryStart L s key id = some (t, b)) : Shape t := by
  rcases tryStart_cases he with
    ⟨_, rfl, _⟩ | ⟨_, _, _, p, rest, before, after, ho, _, hp, _, hw, rfl⟩
  · exact h
  have hnd := h.order_nodup
  rw [ho, List.nodup_middle, List.nodup_cons] at hnd
  have hmem : ∀ k, k ≠ key → (k ∈ before ++ after ↔ (entry s.partitions k).waiting ≠ []) := by
    intro k hk
    rw [← h.mem_order k, ho]
    simp [hk]
  cases rest with
  | nil =>
    refine ⟨by simpa [State.startFront] using hnd.2, ?_⟩
    intro k
    by_cases hk : k = key
    · subst k; simpa [State.startFront] using hnd.1
    · simpa [State.startFront, hk] using hmem k hk
  | cons a rest =>
    refine ⟨?_, ?_⟩
    · have hmove : (before ++ after ++ [key]).Nodup := by
        rw [List.nodup_append]
        refine ⟨hnd.2, List.nodup_singleton _, ?_⟩
        intro x hx y hy hxy
        rw [List.mem_singleton.mp hy] at hxy
        exact hnd.1 (hxy ▸ hx)
      simpa [State.startFront] using hmove
    · intro k
      by_cases hk : k = key
      · subst k; simp [State.startFront]
      · simpa [State.startFront, hk] using hmem k hk

theorem shape_dropTicket {s u : State κ} {t : Ticket κ} (h : Shape s)
    (he : dropTicket s t = some u) : Shape u := by
  obtain ⟨p, q, hp, hl, _, _, rfl⟩ := dropTicket_cases he
  -- A queue that is non-empty afterwards was non-empty before, so its key is in the order.
  have hshrink : q.waiting ≠ [] → p.waiting ≠ [] := by
    rcases leave_cases hl with ⟨_, _, rfl⟩ | ⟨_, id, _, rfl⟩ | ⟨_, _, rfl⟩
    · exact id
    · intro hq hpe
      exact hq (by simp [hpe])
    · exact id
  by_cases hq : q.waiting = []
  · refine ⟨by simpa [State.withoutTicket, hq] using h.order_nodup.filter _, ?_⟩
    intro k
    by_cases hk : k = t.key
    · simp [State.withoutTicket, hq, hk]
    · simpa [State.withoutTicket, hq, hk] using h.mem_order k
  · refine ⟨by simpa [State.withoutTicket, hq] using h.order_nodup, ?_⟩
    intro k
    by_cases hk : k = t.key
    · subst k
      have hin : t.key ∈ s.order := (h.mem_order _).mpr (by
        rw [entry_of_lookup hp]; exact hshrink hq)
      simpa [State.withoutTicket, hq] using hin
    · simpa [State.withoutTicket, hq, hk] using h.mem_order k

end AdmissionState
