import Ja3Proxy.AdmissionState
import Ja3Proxy.TransitionRuns

/-! Accounting of `Admission` over whole runs of `enter`, `try_start` and `Drop for Ticket`.
The world pairs the lock-protected state with the tickets that callers still own.
`place` and `enqueued` are ghosts: they number the queued tickets without wrapping, so
that the wrapping `u64` identifiers can be compared with the tickets they stand for. -/
namespace AdmissionInvariant

open FiniteMaps TransportErrors AdmissionState TransitionRuns

variable {κ : Type} [DecidableEq κ]

structure Held (κ : Type) where
  place : ℕ
  ticket : Ticket κ
  deriving DecidableEq, Repr

/-- `live` maps the number of a successful `enter` to the ticket it returned. `admitted`
records the partition and number of every ticket that became active, oldest first. -/
structure World (κ : Type) where
  state : State κ
  live : AList (fun _ : ℕ => Held κ)
  issued : ℕ
  enqueued : ℕ
  admitted : List (κ × ℕ)

inductive Event (κ : Type) where
  | enter (key : κ)
  | start (serial : ℕ)
  | drop (serial : ℕ)
  deriving DecidableEq, Repr

def World.initial : World κ := ⟨.initial, ∅, 0, 0, []⟩

def World.receive (w : World κ) (s : State κ) (t : Ticket κ) : World κ :=
  { state := s
    live := w.live.insert w.issued ⟨w.enqueued, t⟩
    issued := w.issued + 1
    enqueued := if t.active then w.enqueued else w.enqueued + 1
    admitted := if t.active then w.admitted ++ [(t.key, w.issued)] else w.admitted }

def World.activate (w : World κ) (s : State κ) (n : ℕ) (h : Held κ) : World κ :=
  { w with
    state := s
    live := w.live.insert n { h with ticket := ⟨h.ticket.key, none, true⟩ }
    admitted := w.admitted ++ [(h.ticket.key, n)] }

/-- A start is attempted only by the owner of a queued ticket, as in `Ticket::wait`. -/
def next (L : Limits) (w : World κ) : Event κ → Option (World κ)
  | .enter key =>
    match enter L w.state key with
    | none => none
    | some (s, .error _) => some { w with state := s }
    | some (s, .ok t) => some (w.receive s t)
  | .start n =>
    match w.live.lookup n with
    | none => none
    | some h =>
      match h.ticket.active, h.ticket.id with
      | false, some id =>
        match tryStart L w.state h.ticket.key id with
        | none => none
        | some (s, false) => some { w with state := s }
        | some (s, true) => some (w.activate s n h)
      | _, _ => none
  | .drop n =>
    match w.live.lookup n with
    | none => none
    | some h => (dropTicket w.state h.ticket).map fun s =>
      { w with state := s, live := w.live.erase n }

def machine (L : Limits) : Machine (World κ) (Event κ) := ⟨.initial, next L⟩

def activeOne (h : Held κ) : ℕ := if h.ticket.active then 1 else 0
def queuedOne (h : Held κ) : ℕ := if h.ticket.active then 0 else 1
def activeOf (k : κ) (h : Held κ) : ℕ := if h.ticket.active ∧ h.ticket.key = k then 1 else 0

def Queued (w : World κ) (k : κ) (n : ℕ) (h : Held κ) : Prop :=
  w.live.lookup n = some h ∧ h.ticket.active = false ∧ h.ticket.key = k

/-- Fewer than `2^64` tickets were enqueued since each ticket that is still queued. -/
def NoWrap (w : World κ) : Prop :=
  ∀ k n h, Queued w k n h → w.enqueued ≤ h.place + 2 ^ 64

/-- The lock-protected state agrees with itself and respects the limits. -/
structure Balanced (L : Limits) (s : State κ) : Prop where
  shape : Shape s
  active_sum : s.active = total Partition.active s.partitions
  queued_sum : s.queued = total (fun p => p.waiting.length) s.partitions
  present : ∀ k, (∃ p, s.partitions.lookup k = some p) ↔
    0 < (entry s.partitions k).active ∨ (entry s.partitions k).waiting ≠ []
  active_le : s.active ≤ L.activeLimit
  queued_le : s.queued ≤ L.queueLimit
  partition_active_le : ∀ k, (entry s.partitions k).active ≤ L.partitionActiveLimit
  waiting_le : ∀ k, (entry s.partitions k).waiting.length ≤ L.partitionQueueLimit

structure Owned (w : World κ) : Prop where
  active_count : w.state.active = total activeOne w.live
  queued_count : w.state.queued = total queuedOne w.live
  partition_active : ∀ k, (entry w.state.partitions k).active = total (activeOf k) w.live
  next_eq : w.state.next = UInt64.ofNat w.enqueued
  live_issued : ∀ n h, w.live.lookup n = some h → n < w.issued
  live_queued : ∀ k n h, Queued w k n h →
    h.ticket.id = some (UInt64.ofNat h.place) ∧ h.place < w.enqueued
  place_mono : ∀ k l n m g h, Queued w k n g → Queued w l m h → n < m → g.place < h.place
  /-- A waiting queue is the increasing list of the places of its queued tickets. -/
  waiting_places : ∀ k, ∃ places : List ℕ,
    (entry w.state.partitions k).waiting = places.map UInt64.ofNat ∧
    places.Pairwise (· < ·) ∧ ∀ a, a ∈ places ↔ ∃ n h, Queued w k n h ∧ h.place = a

theorem next_cases {L : Limits} {w v : World κ} {e : Event κ} (h : next L w e = some v) :
    (∃ key, e = .enter key ∧ canStart L w.state key = some true ∧
      v = w.receive (w.state.startNew key) ⟨key, none, true⟩) ∨
    (∃ key, e = .enter key ∧ canStart L w.state key = some false ∧
      w.state.full L key = true ∧ v = w) ∨
    (∃ key, e = .enter key ∧ canStart L w.state key = some false ∧
      w.state.full L key = false ∧
      v = w.receive (w.state.enqueue key) ⟨key, some w.state.next, false⟩) ∨
    (∃ n g id, e = .start n ∧ w.live.lookup n = some g ∧ g.ticket.active = false ∧
      g.ticket.id = some id ∧ tryStart L w.state g.ticket.key id = some (w.state, false) ∧
      v = w) ∨
    (∃ n g id s, e = .start n ∧ w.live.lookup n = some g ∧ g.ticket.active = false ∧
      g.ticket.id = some id ∧ tryStart L w.state g.ticket.key id = some (s, true) ∧
      v = w.activate s n g) ∨
    (∃ n g s, e = .drop n ∧ w.live.lookup n = some g ∧ dropTicket w.state g.ticket = some s ∧
      v = { w with state := s, live := w.live.erase n }) := by
  cases e with
  | enter key =>
    simp only [next] at h
    split at h
    · cases h
    · rename_i s err he
      rcases enter_cases he with ⟨_, _, hr⟩ | ⟨hc, hf, rfl, _⟩ | ⟨_, _, _, hr⟩
      · cases hr
      · exact Or.inr (Or.inl ⟨key, rfl, hc, hf, (Option.some.inj h).symm⟩)
      · cases hr
    · rename_i s t he
      rcases enter_cases he with ⟨hc, rfl, hr⟩ | ⟨_, _, _, hr⟩ | ⟨hc, hf, rfl, hr⟩
      · cases hr
        exact Or.inl ⟨key, rfl, hc, (Option.some.inj h).symm⟩
      · cases hr
      · cases hr
        exact Or.inr (Or.inr (Or.inl ⟨key, rfl, hc, hf, (Option.some.inj h).symm⟩))
  | start n =>
    simp only [next] at h
    split at h
    · cases h
    rename_i g hg
    split at h
    · rename_i id hact hid
      split at h
      · cases h
      · rename_i s hs
        rcases tryStart_cases hs with ⟨_, rfl, _⟩ | ⟨hb, _⟩
        · exact Or.inr (Or.inr (Or.inr (Or.inl
            ⟨n, g, id, rfl, hg, hact, hid, hs, (Option.some.inj h).symm⟩)))
        · cases hb
      · rename_i s hs
        exact Or.inr (Or.inr (Or.inr (Or.inr (Or.inl
          ⟨n, g, id, s, rfl, hg, hact, hid, hs, (Option.some.inj h).symm⟩))))
    · cases h
  | drop n =>
    simp only [next] at h
    split at h
    · cases h
    rename_i g hg
    obtain ⟨s, hs, rfl⟩ := Option.map_eq_some_iff.mp h
    exact Or.inr (Or.inr (Or.inr (Or.inr (Or.inr ⟨n, g, s, rfl, hg, hs, rfl⟩))))

omit [DecidableEq κ] in
theorem queued_receive {w : World κ} {s : State κ} {t : Ticket κ} {k : κ} {n : ℕ} {h : Held κ}
    (fresh : w.live.lookup w.issued = none) :
    Queued (w.receive s t) k n h ↔ Queued w k n h ∨
      (n = w.issued ∧ h = ⟨w.enqueued, t⟩ ∧ t.active = false ∧ t.key = k) := by
  by_cases hn : n = w.issued
  · subst n
    simp only [Queued, World.receive, AList.lookup_insert, fresh, Option.some.injEq]
    constructor
    · rintro ⟨rfl, ha, hk⟩; exact Or.inr ⟨trivial, rfl, ha, hk⟩
    · rintro (⟨h, _⟩ | ⟨_, rfl, ha, hk⟩)
      · cases h
      · exact ⟨rfl, ha, hk⟩
  · simp [Queued, World.receive, AList.lookup_insert_ne hn, hn]

omit [DecidableEq κ] in
theorem queued_activate {w : World κ} {s : State κ} {k : κ} {n m : ℕ} {g h : Held κ} :
    Queued (w.activate s n g) k m h ↔ Queued w k m h ∧ m ≠ n := by
  by_cases hm : m = n
  · subst m
    simp only [Queued, World.activate, AList.lookup_insert, Option.some.injEq]
    constructor
    · rintro ⟨rfl, ha, _⟩; cases ha
    · rintro ⟨_, hne⟩; exact (hne rfl).elim
  · simp [Queued, World.activate, AList.lookup_insert_ne hm, hm]

omit [DecidableEq κ] in
theorem queued_erase {w : World κ} {s : State κ} {k : κ} {n m : ℕ} {h : Held κ} :
    Queued { w with state := s, live := w.live.erase n } k m h ↔ Queued w k m h ∧ m ≠ n := by
  by_cases hm : m = n
  · subst m; simp [Queued]
  · simp [Queued, AList.lookup_erase_ne hm, hm]

theorem balanced_initial (L : Limits) : Balanced L (State.initial : State κ) where
  shape := shape_initial
  active_sum := rfl
  queued_sum := rfl
  present := by simp [State.initial]
  active_le := Nat.zero_le _
  queued_le := Nat.zero_le _
  partition_active_le := by simp [State.initial]
  waiting_le := by simp [State.initial]

/-- Every operation stores one partition and moves each counter by the same amount. -/
theorem balanced_store {L : Limits} {s t : State κ} (key : κ) {p : Partition}
    (h : Balanced L s) (shape : Shape t) (parts : t.partitions = store s.partitions key p)
    (active : t.active + (entry s.partitions key).active = s.active + p.active)
    (queued : t.queued + (entry s.partitions key).waiting.length = s.queued + p.waiting.length)
    (active_le : t.active ≤ L.activeLimit) (queued_le : t.queued ≤ L.queueLimit)
    (partition_le : p.active ≤ L.partitionActiveLimit)
    (waiting_le : p.waiting.length ≤ L.partitionQueueLimit) : Balanced L t := by
  refine ⟨shape, ?_, ?_, ?_, active_le, queued_le, ?_, ?_⟩
  · have ht := total_store (f := Partition.active) rfl s.partitions key p
    have hs := h.active_sum
    rw [parts]
    omega
  · have ht := total_store (f := fun q : Partition => q.waiting.length) rfl s.partitions key p
    have hs := h.queued_sum
    rw [parts]
    omega
  · intro k
    rw [parts, lookup_store, entry_store]
    by_cases hk : k = key
    · simp [hk]
    · simpa [hk] using h.present k
  · intro k
    rw [parts, entry_store]
    split
    · exact partition_le
    · exact h.partition_active_le k
  · intro k
    rw [parts, entry_store]
    split
    · exact waiting_le
    · exact h.waiting_le k

theorem balanced_startNew {L : Limits} {s : State κ} {key : κ} (hL : L.Positive)
    (h : Balanced L s) (hc : canStart L s key = some true) : Balanced L (s.startNew key) := by
  obtain ⟨ha, _, hp, _⟩ := canStart_true hc
  have hlt : (entry s.partitions key).active < L.partitionActiveLimit := by
    cases hl : s.partitions.lookup key with
    | none => simpa [entry, hl] using hL.partitionActive
    | some p => simpa [entry, hl] using hp p hl
  refine balanced_store key
    (p := { entry s.partitions key with active := (entry s.partitions key).active + 1 }) h
    (shape_startNew h.shape key) ?_ ?_ rfl ha h.queued_le hlt (h.waiting_le key)
  · rw [store_eq_insert (Or.inl (Nat.succ_pos _))]
    rfl
  · simp only [State.startNew]
    omega

theorem balanced_enqueue {L : Limits} {s : State κ} {key : κ} (hL : L.Positive)
    (h : Balanced L s) (hf : s.full L key = false) : Balanced L (s.enqueue key) := by
  simp only [State.full, Bool.or_eq_false_iff, decide_eq_false_iff_not] at hf
  have hlen : (entry s.partitions key).waiting.length < L.partitionQueueLimit := by
    cases hl : s.partitions.lookup key with
    | none => simpa [entry, hl] using hL.partitionQueue
    | some p => simpa [entry, hl] using hf.2
  refine balanced_store key
    (p := { entry s.partitions key with waiting := (entry s.partitions key).waiting ++ [s.next] })
    h (shape_enqueue h.shape key) ?_ rfl ?_ h.active_le ?_ (h.partition_active_le key) ?_
  · rw [store_eq_insert (Or.inr (by simp))]
    rfl
  · simp only [State.enqueue, List.length_append, List.length_singleton]
    omega
  · simp only [State.enqueue]
    omega
  · simp only [List.length_append, List.length_singleton]
    omega

theorem balanced_tryStart {L : Limits} {s t : State κ} {key : κ} {id : UInt64} {b : Bool}
    (h : Balanced L s) (he : tryStart L s key id = some (t, b)) : Balanced L t := by
  have shape := shape_tryStart h.shape he
  rcases tryStart_cases he with
    ⟨_, rfl, _⟩ | ⟨_, ha, hq, p, rest, before, after, _, _, hp, hpa, hw, rfl⟩
  · exact h
  have hen : entry s.partitions key = p := entry_of_lookup hp
  have hle := h.waiting_le key
  have hqle := h.queued_le
  rw [hen, hw, List.length_cons] at hle
  refine balanced_store key (p := ⟨p.active + 1, rest⟩) h shape ?_ ?_ ?_ ha ?_ hpa ?_
  · rw [store_eq_insert (Or.inl (Nat.succ_pos _))]
    rfl
  · simp only [State.startFront, hen]
    omega
  · simp only [State.startFront, hen, hw, List.length_cons]
    omega
  · simp only [State.startFront]
    omega
  · simp only
    omega

/-- A queued ticket must take exactly its own identifier out of the waiting queue. -/
theorem balanced_dropTicket {L : Limits} {s u : State κ} {t : Ticket κ} (h : Balanced L s)
    (he : dropTicket s t = some u)
    (one : t.active = false → (entry u.partitions t.key).waiting.length + 1 =
      (entry s.partitions t.key).waiting.length) : Balanced L u := by
  have shape := shape_dropTicket h.shape he
  obtain ⟨p, q, hp, hl, hpos, hqpos, rfl⟩ := dropTicket_cases he
  have hen : entry s.partitions t.key = p := entry_of_lookup hp
  have hpa := h.partition_active_le t.key
  have hpw := h.waiting_le t.key
  have hal := h.active_le
  have hql := h.queued_le
  simp only [State.withoutTicket, entry_store, ↓reduceIte] at one
  rw [hen] at hpa hpw one
  rcases leave_cases hl with ⟨ha, hpp, rfl⟩ | ⟨ha, id, _, rfl⟩ | ⟨ha, _, rfl⟩
  · have := hpos ha
    refine balanced_store t.key h shape rfl ?_ ?_ ?_ ?_ ?_ hpw
    · simp only [State.withoutTicket, ha, ↓reduceIte, hen]
      omega
    · simp [State.withoutTicket, ha, hen]
    · simp only [State.withoutTicket, ha, ↓reduceIte]
      omega
    · simpa [State.withoutTicket, ha] using hql
    · simp only
      omega
  · have hone := one ha
    have := hqpos ha
    refine balanced_store t.key h shape rfl ?_ ?_ ?_ ?_ hpa ?_
    · simp [State.withoutTicket, ha, hen]
    · simp only [State.withoutTicket, ha, Bool.false_eq_true, ↓reduceIte, hen] at hone ⊢
      omega
    · simpa [State.withoutTicket, ha] using hal
    · simp only [State.withoutTicket, ha, Bool.false_eq_true, ↓reduceIte]
      omega
    · simp only at hone ⊢
      omega
  · have := one ha
    omega

private theorem ofNat_inj {a b bound : ℕ} (ha : a < bound) (hb : b < bound)
    (hwa : bound ≤ a + 2 ^ 64) (hwb : bound ≤ b + 2 ^ 64)
    (h : UInt64.ofNat a = UInt64.ofNat b) : a = b := by
  have hm : a % 2 ^ 64 = b % 2 ^ 64 := by
    simpa using congrArg UInt64.toNat h
  omega

theorem Owned.fresh {w : World κ} (h : Owned w) : w.live.lookup w.issued = none := by
  cases hl : w.live.lookup w.issued with
  | none => rfl
  | some g =>
    have := h.live_issued _ _ hl
    omega

theorem Owned.place_inj {w : World κ} (h : Owned w) {k l : κ} {n m : ℕ} {f g : Held κ}
    (hf : Queued w k n f) (hg : Queued w l m g) (he : f.place = g.place) : n = m := by
  rcases lt_trichotomy n m with hlt | heq | hlt
  · have := h.place_mono k l n m f g hf hg hlt
    omega
  · exact heq
  · have := h.place_mono l k m n g f hg hf hlt
    omega

/-- Inside the window an identifier determines the place of the ticket that carries it. -/
theorem Owned.place_of_id {w : World κ} (h : Owned w) (hw : NoWrap w) {k l : κ} {n m : ℕ}
    {f g : Held κ} (hf : Queued w k n f) (hg : Queued w l m g)
    (he : UInt64.ofNat f.place = UInt64.ofNat g.place) : f.place = g.place :=
  ofNat_inj (h.live_queued k n f hf).2 (h.live_queued l m g hg).2 (hw k n f hf) (hw l m g hg) he

/-- Inside the window no waiting queue holds an identifier twice. -/
theorem Owned.waiting_nodup {w : World κ} (h : Owned w) (hw : NoWrap w) (k : κ) :
    (entry w.state.partitions k).waiting.Nodup := by
  obtain ⟨places, hpl, hsort, hmem⟩ := h.waiting_places k
  rw [hpl]
  refine (List.nodup_map_iff_inj_on (hsort.imp fun hlt => Nat.ne_of_lt hlt)).mpr ?_
  intro a ha b hb hab
  obtain ⟨n, f, hf, rfl⟩ := (hmem a).mp ha
  obtain ⟨m, g, hg, rfl⟩ := (hmem b).mp hb
  exact h.place_of_id hw hf hg hab

theorem Owned.id_waiting {w : World κ} (h : Owned w) {k : κ} {n : ℕ} {g : Held κ}
    (hg : Queued w k n g) :
    UInt64.ofNat g.place ∈ (entry w.state.partitions k).waiting := by
  obtain ⟨places, hpl, _, hmem⟩ := h.waiting_places k
  rw [hpl]
  exact List.mem_map_of_mem ((hmem g.place).mpr ⟨n, g, hg, rfl⟩)

theorem owned_initial : Owned (World.initial : World κ) where
  active_count := rfl
  queued_count := rfl
  partition_active := by simp [World.initial, State.initial]
  next_eq := rfl
  live_issued := by simp [World.initial]
  live_queued := by simp [World.initial, Queued]
  place_mono := by simp [World.initial, Queued]
  waiting_places := by
    intro k
    exact ⟨[], by simp [World.initial, State.initial, Queued]⟩

private theorem issued_receive {w : World κ} {s : State κ} {t : Ticket κ} (h : Owned w) :
    ∀ n g, (w.receive s t).live.lookup n = some g → n < (w.receive s t).issued := by
  intro n g hg
  by_cases hn : n = w.issued
  · subst n; simp [World.receive]
  · have := h.live_issued n g (by simpa [World.receive, AList.lookup_insert_ne hn] using hg)
    simp only [World.receive]
    omega

theorem owned_startNew {w : World κ} {key : κ} (h : Owned w) :
    Owned (w.receive (w.state.startNew key) ⟨key, none, true⟩) := by
  have hq : ∀ k n g, Queued (w.receive (w.state.startNew key) ⟨key, none, true⟩) k n g ↔
      Queued w k n g := by
    intro k n g
    simp [queued_receive h.fresh]
  have hwait : ∀ k, (entry (w.state.startNew key).partitions k).waiting =
      (entry w.state.partitions k).waiting := by
    intro k
    simp only [State.startNew, entry_insert]
    split
    · rename_i hk; rw [hk]
    · rfl
  refine ⟨?_, ?_, ?_, h.next_eq, issued_receive h, ?_, ?_, ?_⟩
  · simp [World.receive, State.startNew, total_insert_new h.fresh, activeOne, h.active_count]
  · simp [World.receive, State.startNew, total_insert_new h.fresh, queuedOne, h.queued_count]
  · intro k
    have hk := h.partition_active k
    by_cases hkey : k = key
    · subst k
      simp [World.receive, State.startNew, total_insert_new h.fresh, activeOf, hk]
    · simp [World.receive, State.startNew, total_insert_new h.fresh, activeOf, hk, hkey,
        Ne.symm hkey]
  · intro k n g hg
    exact h.live_queued k n g ((hq k n g).mp hg)
  · intro k l n m f g hf hg
    exact h.place_mono k l n m f g ((hq k n f).mp hf) ((hq l m g).mp hg)
  · intro k
    obtain ⟨places, hpl, hsort, hmem⟩ := h.waiting_places k
    exact ⟨places, (hwait k).trans hpl, hsort, by simpa only [hq] using hmem⟩

theorem owned_enqueue {w : World κ} {key : κ} (h : Owned w) :
    Owned (w.receive (w.state.enqueue key) ⟨key, some w.state.next, false⟩) := by
  have hq : ∀ k n g, Queued (w.receive (w.state.enqueue key) ⟨key, some w.state.next, false⟩)
      k n g ↔ Queued w k n g ∨
        (n = w.issued ∧ g = ⟨w.enqueued, ⟨key, some w.state.next, false⟩⟩ ∧ key = k) := by
    intro k n g
    simp [queued_receive h.fresh]
  refine ⟨?_, ?_, ?_, ?_, issued_receive h, ?_, ?_, ?_⟩
  · simp [World.receive, State.enqueue, total_insert_new h.fresh, activeOne, h.active_count]
  · simp [World.receive, State.enqueue, total_insert_new h.fresh, queuedOne, h.queued_count]
  · intro k
    have hk := h.partition_active k
    by_cases hkey : k = key
    · subst k
      simp [World.receive, State.enqueue, total_insert_new h.fresh, activeOf, hk]
    · simp [World.receive, State.enqueue, total_insert_new h.fresh, activeOf, hk, hkey]
  · simp [World.receive, State.enqueue, h.next_eq, UInt64.ofNat_add]
  · intro k n g hg
    rcases (hq k n g).mp hg with hg | ⟨_, rfl, _⟩
    · obtain ⟨hid, hlt⟩ := h.live_queued k n g hg
      exact ⟨hid, Nat.lt_succ_of_lt hlt⟩
    · exact ⟨by simp [h.next_eq], by simp [World.receive]⟩
  · intro k l n m f g hf hg hnm
    rcases (hq k n f).mp hf with hf | ⟨hn, rfl, _⟩ <;>
      rcases (hq l m g).mp hg with hg | ⟨hm, rfl, _⟩
    · exact h.place_mono k l n m f g hf hg hnm
    · exact (h.live_queued k n f hf).2
    · have := h.live_issued m g hg.1
      omega
    · omega
  · intro k
    obtain ⟨places, hpl, hsort, hmem⟩ := h.waiting_places k
    by_cases hkey : k = key
    · subst k
      refine ⟨places ++ [w.enqueued], ?_, ?_, ?_⟩
      · simp [World.receive, State.enqueue, hpl, h.next_eq]
      · rw [List.pairwise_append]
        refine ⟨hsort, List.pairwise_singleton _ _, ?_⟩
        intro a ha b hb
        obtain ⟨n, g, hg, rfl⟩ := (hmem a).mp ha
        rw [List.mem_singleton.mp hb]
        exact (h.live_queued key n g hg).2
      · intro a
        simp only [List.mem_append, List.mem_singleton, hmem, hq]
        constructor
        · rintro (⟨n, g, hg, rfl⟩ | rfl)
          · exact ⟨n, g, Or.inl hg, rfl⟩
          · exact ⟨_, _, Or.inr ⟨rfl, rfl, trivial⟩, rfl⟩
        · rintro ⟨n, g, hg | ⟨_, rfl, _⟩, rfl⟩
          · exact Or.inl ⟨n, g, hg, rfl⟩
          · exact Or.inr rfl
    · refine ⟨places, ?_, hsort, ?_⟩
      · simpa [World.receive, State.enqueue, hkey] using hpl
      · intro a
        simp only [hq, Ne.symm hkey, and_false, or_false]
        exact hmem a

omit [DecidableEq κ] in
private theorem total_activate {f : Held κ → ℕ} {w : World κ} {s : State κ} {n : ℕ} {g : Held κ}
    (hg : w.live.lookup n = some g) :
    total f (w.activate s n g).live + f g =
      total f w.live + f { g with ticket := ⟨g.ticket.key, none, true⟩ } :=
  total_insert_old hg

def Remaining (w : World κ) (k : κ) (n : ℕ) (ids : List UInt64) : Prop :=
  ∃ places : List ℕ, ids = places.map UInt64.ofNat ∧ places.Pairwise (· < ·) ∧
    ∀ a, a ∈ places ↔ ∃ m f, (Queued w k m f ∧ m ≠ n) ∧ f.place = a

private theorem remaining_other {w : World κ} {k : κ} {n : ℕ} {g : Held κ} (h : Owned w)
    (hg : w.live.lookup n = some g) (hn : ¬ Queued w k n g) :
    Remaining w k n (entry w.state.partitions k).waiting := by
  obtain ⟨places, hpl, hsort, hmem⟩ := h.waiting_places k
  refine ⟨places, hpl, hsort, ?_⟩
  intro a
  rw [hmem a]
  constructor
  · rintro ⟨m, f, hf, rfl⟩
    refine ⟨m, f, ⟨hf, ?_⟩, rfl⟩
    rintro rfl
    have hfg : f = g := Option.some.inj (hf.1.symm.trans hg)
    exact hn (hfg ▸ hf)
  · rintro ⟨m, f, ⟨hf, _⟩, rfl⟩
    exact ⟨m, f, hf, rfl⟩

/-- What remains of a started ticket's queue: its own place, the first, is gone. -/
private theorem activated_places {w : World κ} {n : ℕ} {g : Held κ} {id : UInt64}
    {p : Partition} {rest : List UInt64} {before after : List κ} (h : Owned w) (hw : NoWrap w)
    (hg : w.live.lookup n = some g) (hact : g.ticket.active = false)
    (hid : g.ticket.id = some id) (hp : w.state.partitions.lookup g.ticket.key = some p)
    (hwait : p.waiting = id :: rest) (k : κ) :
    Remaining w k n
      (entry (w.state.startFront g.ticket.key p rest before after).partitions k).waiting := by
  have hqg : Queued w g.ticket.key n g := ⟨hg, hact, rfl⟩
  have hen : entry w.state.partitions g.ticket.key = p := entry_of_lookup hp
  by_cases hk : k = g.ticket.key
  · subst k
    obtain ⟨places, hpl, hsort, hmem⟩ := h.waiting_places g.ticket.key
    rw [hen, hwait] at hpl
    -- The front identifier is this ticket's own: two queued places cannot share it.
    cases places with
    | nil => simp at hpl
    | cons a places =>
      simp only [List.map_cons, List.cons.injEq] at hpl
      obtain ⟨hlt, hsort⟩ := List.pairwise_cons.mp hsort
      have ha : a = g.place := by
        obtain ⟨m, f, hf, rfl⟩ := (hmem a).mp List.mem_cons_self
        apply h.place_of_id hw hf hqg
        rw [← hpl.1]
        exact Option.some.inj (hid.symm.trans (h.live_queued _ n g hqg).1)
      refine ⟨places, ?_, hsort, ?_⟩
      · simpa [State.startFront] using hpl.2
      · intro b
        constructor
        · intro hb
          obtain ⟨m, f, hf, rfl⟩ := (hmem b).mp (List.mem_cons_of_mem _ hb)
          refine ⟨m, f, ⟨hf, ?_⟩, rfl⟩
          rintro rfl
          have hfg : f = g := Option.some.inj (hf.1.symm.trans hg)
          have := hlt f.place hb
          subst f
          omega
        · rintro ⟨m, f, ⟨hf, hne⟩, rfl⟩
          rcases List.mem_cons.mp ((hmem f.place).mpr ⟨m, f, hf, rfl⟩) with he | hb
          · exact (hne (h.place_inj hf hqg (he.trans ha))).elim
          · exact hb
  · have hother := remaining_other h hg (k := k) fun hq => hk hq.2.2.symm
    simpa [State.startFront, hk] using hother

theorem owned_activate {L : Limits} {w : World κ} {s : State κ} {n : ℕ} {g : Held κ}
    {id : UInt64} (h : Owned w) (hw : NoWrap w) (hg : w.live.lookup n = some g)
    (hact : g.ticket.active = false) (hid : g.ticket.id = some id)
    (hs : tryStart L w.state g.ticket.key id = some (s, true)) :
    Owned (w.activate s n g) := by
  rcases tryStart_cases hs with
    ⟨_, _, hb⟩ | ⟨_, _, hpos, p, rest, before, after, _, _, hp, _, hwait, rfl⟩
  · cases hb
  have hen : entry w.state.partitions g.ticket.key = p := entry_of_lookup hp
  have hq := @queued_activate κ w (w.state.startFront g.ticket.key p rest before after)
  refine ⟨?_, ?_, ?_, h.next_eq, ?_, ?_, ?_, ?_⟩
  · have ht := total_activate (f := activeOne)
      (s := w.state.startFront g.ticket.key p rest before after) hg
    have hc := h.active_count
    simp only [activeOne, hact, Bool.false_eq_true, ↓reduceIte] at ht
    change w.state.active + 1 = _
    rw [hc]
    exact ht.symm
  · have ht := total_activate (f := queuedOne)
      (s := w.state.startFront g.ticket.key p rest before after) hg
    have hc := h.queued_count
    simp only [queuedOne, hact, Bool.false_eq_true, ↓reduceIte] at ht
    change w.state.queued - 1 = total queuedOne _
    omega
  · intro k
    have ht := total_activate (f := activeOf k)
      (s := w.state.startFront g.ticket.key p rest before after) hg
    have hc := h.partition_active k
    by_cases hk : k = g.ticket.key
    · subst k
      rw [hen] at hc
      simp only [activeOf, hact, Bool.false_eq_true, false_and, ↓reduceIte, and_self] at ht
      simp only [World.activate, State.startFront, entry_insert, ↓reduceIte] at ht ⊢
      omega
    · simp only [activeOf, hact, Bool.false_eq_true, ↓reduceIte, Ne.symm hk, and_false] at ht
      simp only [World.activate, State.startFront, entry_insert, hk, ↓reduceIte] at ht ⊢
      omega
  · intro m f hf
    by_cases hm : m = n
    · rw [hm]; exact h.live_issued n g hg
    · exact h.live_issued m f (by simpa [World.activate, AList.lookup_insert_ne hm] using hf)
  · intro k m f hf
    exact h.live_queued k m f (hq.mp hf).1
  · intro k l m o e f he hf
    exact h.place_mono k l m o e f (hq.mp he).1 (hq.mp hf).1
  · intro k
    obtain ⟨places, hpl, hsort, hmem⟩ := activated_places h hw hg hact hid hp hwait k
    exact ⟨places, hpl, hsort, by simpa only [hq] using hmem⟩

/-- What remains of a dropped ticket's queue: its own place is gone, nothing else. -/
private theorem dropped_places {w : World κ} {s : State κ} {n : ℕ} {g : Held κ} (h : Owned w)
    (hw : NoWrap w) (hg : w.live.lookup n = some g) (hs : dropTicket w.state g.ticket = some s)
    (k : κ) : Remaining w k n (entry s.partitions k).waiting := by
  obtain ⟨p, q, hp, hl, _, _, rfl⟩ := dropTicket_cases hs
  have hen : entry w.state.partitions g.ticket.key = p := entry_of_lookup hp
  by_cases hk : k = g.ticket.key
  · subst k
    rcases leave_cases hl with ⟨ha, _, rfl⟩ | ⟨ha, id, hid, rfl⟩ | ⟨ha, hid, rfl⟩
    · have hother := remaining_other h hg (k := g.ticket.key) fun hq => by simp [hq.2.1] at ha
      simpa [State.withoutTicket, hen] using hother
    · obtain ⟨places, hpl, hsort, hmem⟩ := h.waiting_places g.ticket.key
      have hqg : Queued w g.ticket.key n g := ⟨hg, ha, rfl⟩
      have hid' : id = UInt64.ofNat g.place :=
        Option.some.inj (hid.symm.trans (h.live_queued _ n g hqg).1)
      have hsame : ∀ a ∈ places, UInt64.ofNat a = id ↔ a = g.place := by
        intro a ha
        obtain ⟨m, f, hf, rfl⟩ := (hmem a).mp ha
        rw [hid']
        exact ⟨h.place_of_id hw hf hqg, fun he => by rw [he]⟩
      refine ⟨places.filter (· ≠ g.place), ?_, hsort.filter _, ?_⟩
      · rw [hen] at hpl
        simp only [State.withoutTicket, entry_store, ↓reduceIte, hpl, List.filter_map]
        congr 1
        apply List.filter_congr
        intro a ha
        simpa using hsame a ha
      · intro a
        simp only [List.mem_filter, decide_eq_true_eq, hmem]
        constructor
        · rintro ⟨⟨m, f, hf, rfl⟩, hfg⟩
          refine ⟨m, f, ⟨hf, ?_⟩, rfl⟩
          rintro rfl
          exact hfg (congrArg Held.place (Option.some.inj (hf.1.symm.trans hg)))
        · rintro ⟨m, f, ⟨hf, hmn⟩, rfl⟩
          exact ⟨⟨m, f, hf, rfl⟩, fun he => hmn (h.place_inj hf hqg he)⟩
    · have hqg : Queued w g.ticket.key n g := ⟨hg, ha, rfl⟩
      rw [(h.live_queued _ n g hqg).1] at hid
      cases hid
  · have hother := remaining_other h hg (k := k) fun hq => hk hq.2.2.symm
    simpa [State.withoutTicket, hk] using hother

theorem owned_erase {w : World κ} {s : State κ} {n : ℕ} {g : Held κ} (h : Owned w)
    (hw : NoWrap w) (hg : w.live.lookup n = some g)
    (hs : dropTicket w.state g.ticket = some s) :
    Owned { w with state := s, live := w.live.erase n } := by
  have hplaces := dropped_places h hw hg hs
  obtain ⟨p, q, hp, hl, hpos, hqpos, rfl⟩ := dropTicket_cases hs
  have hen : entry w.state.partitions g.ticket.key = p := entry_of_lookup hp
  have hq := @queued_erase κ w (w.state.withoutTicket g.ticket q)
  refine ⟨?_, ?_, ?_, h.next_eq, ?_, ?_, ?_, ?_⟩
  · have ht := total_erase (f := activeOne) hg
    have hc := h.active_count
    cases ha : g.ticket.active with
    | true =>
      have := hpos ha
      simp only [activeOne, ha, ↓reduceIte] at ht
      simp only [State.withoutTicket, ha, ↓reduceIte]
      omega
    | false =>
      simp only [activeOne, ha, Bool.false_eq_true, ↓reduceIte] at ht
      simp only [State.withoutTicket, ha, Bool.false_eq_true, ↓reduceIte]
      omega
  · have ht := total_erase (f := queuedOne) hg
    have hc := h.queued_count
    cases ha : g.ticket.active with
    | true =>
      simp only [queuedOne, ha, ↓reduceIte] at ht
      simp only [State.withoutTicket, ha, ↓reduceIte]
      omega
    | false =>
      have := hqpos ha
      simp only [queuedOne, ha, Bool.false_eq_true, ↓reduceIte] at ht
      simp only [State.withoutTicket, ha, Bool.false_eq_true, ↓reduceIte]
      omega
  · intro k
    have ht := total_erase (f := activeOf k) hg
    have hc := h.partition_active k
    simp only [State.withoutTicket, entry_store]
    by_cases hk : k = g.ticket.key
    · subst k
      rw [hen] at hc
      rw [if_pos rfl]
      rcases leave_cases hl with ⟨ha, _, rfl⟩ | ⟨ha, id, hid, rfl⟩ | ⟨ha, hid, rfl⟩
      · simp only [activeOf, ha, true_and, ↓reduceIte] at ht
        simp only
        omega
      · simp only [activeOf, ha, Bool.false_eq_true, false_and, ↓reduceIte] at ht
        simp only
        omega
      · simp only [activeOf, ha, Bool.false_eq_true, false_and, ↓reduceIte] at ht
        omega
    · simp only [activeOf, Ne.symm hk, and_false, ↓reduceIte] at ht
      rw [if_neg hk]
      omega
  · intro m f hf
    by_cases hm : m = n
    · subst m; simp at hf
    · exact h.live_issued m f (by simpa [AList.lookup_erase_ne hm] using hf)
  · intro k m f hf
    exact h.live_queued k m f (hq.mp hf).1
  · intro k l m o e f he hf
    exact h.place_mono k l m o e f (hq.mp he).1 (hq.mp hf).1
  · intro k
    obtain ⟨places, hpl, hsort, hmem⟩ := hplaces k
    exact ⟨places, hpl, hsort, by simpa only [hq] using hmem⟩

private theorem filter_ne_length {α : Type} [DecidableEq α] {l : List α} {a : α} (hn : l.Nodup)
    (ha : a ∈ l) : (l.filter (· ≠ a)).length + 1 = l.length := by
  have he : l.filter (· ≠ a) = l.erase a := by
    rw [hn.erase_eq_filter]
    apply List.filter_congr
    intro b _
    simp [bne, beq_eq_decide]
  have := List.length_pos_of_mem ha
  rw [he, List.length_erase_of_mem ha]
  omega

theorem owned_step {L : Limits} {w v : World κ} {e : Event κ} (h : Owned w) (hw : NoWrap w)
    (hn : next L w e = some v) : Owned v := by
  rcases next_cases hn with ⟨key, _, hc, rfl⟩ | ⟨_, _, _, _, rfl⟩ | ⟨key, _, _, hf, rfl⟩ |
    ⟨_, _, _, _, _, _, _, _, rfl⟩ | ⟨n, g, id, s, _, hg, ha, hid, hs, rfl⟩ |
    ⟨n, g, s, _, hg, hs, rfl⟩
  · exact owned_startNew h
  · exact h
  · exact owned_enqueue h
  · exact h
  · exact owned_activate h hw hg ha hid hs
  · exact owned_erase h hw hg hs

structure Invariant (L : Limits) (w : World κ) : Prop where
  balanced : Balanced L w.state
  owned : Owned w

theorem invariant_step {L : Limits} (hL : L.Positive) {w v : World κ} {e : Event κ}
    (h : Invariant L w) (hw : NoWrap w) (hn : next L w e = some v) : Invariant L v := by
  refine ⟨?_, owned_step h.owned hw hn⟩
  rcases next_cases hn with ⟨key, _, hc, rfl⟩ | ⟨_, _, _, _, rfl⟩ | ⟨key, _, _, hf, rfl⟩ |
    ⟨_, _, _, _, _, _, _, _, rfl⟩ | ⟨n, g, id, s, _, hg, ha, hid, hs, rfl⟩ |
    ⟨n, g, s, _, hg, hs, rfl⟩
  · exact balanced_startNew hL h.balanced hc
  · exact h.balanced
  · exact balanced_enqueue hL h.balanced hf
  · exact h.balanced
  · exact balanced_tryStart h.balanced hs
  · refine balanced_dropTicket h.balanced hs ?_
    intro ha
    have hqg : Queued w g.ticket.key n g := ⟨hg, ha, rfl⟩
    obtain ⟨p, q, hp, hl, _, _, rfl⟩ := dropTicket_cases hs
    have hen : entry w.state.partitions g.ticket.key = p := entry_of_lookup hp
    have hnd := h.owned.waiting_nodup hw g.ticket.key
    have hmem := h.owned.id_waiting hqg
    rw [hen] at hnd hmem
    rcases leave_cases hl with ⟨ha', _, _⟩ | ⟨_, id, hid, rfl⟩ | ⟨_, hid, _⟩
    · rw [ha] at ha'
      cases ha'
    · rw [(h.owned.live_queued _ n g hqg).1] at hid
      cases hid
      simpa [State.withoutTicket, hen] using filter_ne_length hnd hmem
    · rw [(h.owned.live_queued _ n g hqg).1] at hid
      cases hid

/-- The run lemma, from any world that is already accounted for. -/
theorem invariant_run {L : Limits} (hL : L.Positive) {w v : World κ} {es : List (Event κ)}
    (h : Invariant L w ∧ NoWrap w) (hwrap : (machine L).Along (fun _ _ u => NoWrap u) w es)
    (hrun : (machine L).run w es = some v) : Invariant L v ∧ NoWrap v :=
  Machine.run_preserves_along (C := fun _ _ u => NoWrap u)
    (P := fun u => Invariant L u ∧ NoWrap u)
    (fun _ _ _ hs hc hn => ⟨invariant_step hL hs.1 hs.2 hn, hc⟩) h hwrap hrun

theorem invariant_start (L : Limits) :
    Invariant L (World.initial : World κ) ∧ NoWrap (World.initial : World κ) :=
  ⟨⟨balanced_initial L, owned_initial⟩, by simp [NoWrap, Queued, World.initial]⟩

structure Accounting (L : Limits) (w : World κ) : Prop where
  active_sum : w.state.active = total Partition.active w.state.partitions
  active_tickets : w.state.active = total activeOne w.live
  active_le : w.state.active ≤ L.activeLimit
  partition_active_le : ∀ k p, w.state.partitions.lookup k = some p →
    p.active = total (activeOf k) w.live ∧ p.active ≤ L.partitionActiveLimit
  queued_sum : w.state.queued = total (fun p => p.waiting.length) w.state.partitions
  queued_tickets : w.state.queued = total queuedOne w.live
  queued_le : w.state.queued ≤ L.queueLimit
  waiting_le : ∀ k p, w.state.partitions.lookup k = some p →
    p.waiting.length ≤ L.partitionQueueLimit ∧ p.waiting.Nodup
  order_nodup : w.state.order.Nodup
  mem_order : ∀ k, k ∈ w.state.order ↔
    ∃ p, w.state.partitions.lookup k = some p ∧ p.waiting ≠ []
  mem_partitions : ∀ k, (∃ p, w.state.partitions.lookup k = some p) ↔
    ∃ n g, w.live.lookup n = some g ∧ g.ticket.key = k

structure PanicFree (L : Limits) (w : World κ) : Prop where
  enter : ∀ key, ∃ r, AdmissionState.enter L w.state key = some r
  start : ∀ n g, w.live.lookup n = some g → g.ticket.active = false →
    ∃ id, g.ticket.id = some id ∧ ∃ r, tryStart L w.state g.ticket.key id = some r
  drop : ∀ n g, w.live.lookup n = some g → ∃ s, dropTicket w.state g.ticket = some s

theorem Invariant.ticket_present {L : Limits} {w : World κ} (h : Invariant L w) {n : ℕ}
    {g : Held κ} (hg : w.live.lookup n = some g) :
    0 < (entry w.state.partitions g.ticket.key).active ∨
    (entry w.state.partitions g.ticket.key).waiting ≠ [] := by
  cases ha : g.ticket.active with
  | true =>
    have hle := total_le (f := activeOf g.ticket.key) hg
    rw [← h.owned.partition_active] at hle
    simp only [activeOf, ha, and_self, ↓reduceIte] at hle
    exact Or.inl hle
  | false =>
    have hm := h.owned.id_waiting ⟨hg, ha, rfl⟩
    exact Or.inr (List.ne_nil_of_mem hm)

theorem Invariant.accounting {L : Limits} {w : World κ} (h : Invariant L w) (hw : NoWrap w) :
    Accounting L w where
  active_sum := h.balanced.active_sum
  active_tickets := h.owned.active_count
  active_le := h.balanced.active_le
  partition_active_le := by
    intro k p hp
    rw [← entry_of_lookup hp]
    exact ⟨h.owned.partition_active k, h.balanced.partition_active_le k⟩
  queued_sum := h.balanced.queued_sum
  queued_tickets := h.owned.queued_count
  queued_le := h.balanced.queued_le
  waiting_le := by
    intro k p hp
    rw [← entry_of_lookup hp]
    exact ⟨h.balanced.waiting_le k, h.owned.waiting_nodup hw k⟩
  order_nodup := h.balanced.shape.order_nodup
  mem_order := by
    intro k
    rw [h.balanced.shape.mem_order k]
    constructor
    · intro hk; exact ⟨_, lookup_of_waiting hk, hk⟩
    · rintro ⟨p, hp, hk⟩; rwa [entry_of_lookup hp]
  mem_partitions := by
    intro k
    rw [h.balanced.present k]
    constructor
    · rintro (ha | hk)
      · rw [h.owned.partition_active, total_pos_iff] at ha
        obtain ⟨n, g, hg, hpos⟩ := ha
        refine ⟨n, g, hg, ?_⟩
        by_contra hne
        simp [activeOf, hne] at hpos
      · obtain ⟨places, hpl, _, hmem⟩ := h.owned.waiting_places k
        obtain ⟨a, ha⟩ := List.exists_mem_of_ne_nil places (by
          rintro rfl
          exact hk hpl)
        obtain ⟨n, g, hg, _⟩ := (hmem a).mp ha
        exact ⟨n, g, hg.1, hg.2.2⟩
    · rintro ⟨n, g, hg, rfl⟩
      exact h.ticket_present hg

theorem selectFront_total {L : Limits} {s : State κ} (key : κ) (id : UInt64) :
    ∃ front, selectFront L s key id = some front := by
  unfold selectFront
  split
  · exact ⟨none, rfl⟩
  · split
    · exact ⟨none, rfl⟩
    · rename_i index hf
      obtain ⟨hi, hel, _⟩ := List.findIdx?_eq_some_iff_getElem.mp hf
      obtain ⟨p, hp, _⟩ := eligible_iff.mp hel
      rw [List.getElem?_eq_getElem hi]
      by_cases hk : s.order[index] = key
      · rw [hk] at hp
        by_cases hh : p.waiting.head? = some id
        · exact ⟨some index, by simp [hk, hp, hh]⟩
        · exact ⟨none, by simp [hk, hp, hh]⟩
      · exact ⟨none, by simp [hk]⟩

theorem Invariant.panic_free {L : Limits} {w : World κ} (h : Invariant L w) : PanicFree L w where
  enter := by
    intro key
    obtain ⟨b, hb⟩ : ∃ b, canStart L w.state key = some b := by
      unfold canStart
      split
      · exact allSaturated_total fun k hk => ⟨_, h.balanced.shape.lookup hk⟩
      · exact ⟨false, rfl⟩
    unfold AdmissionState.enter
    rw [hb]
    cases b with
    | true => exact ⟨_, rfl⟩
    | false => split_ifs <;> exact ⟨_, rfl⟩
  start := by
    intro n g hg ha
    have hqg : Queued w g.ticket.key n g := ⟨hg, ha, rfl⟩
    refine ⟨_, (h.owned.live_queued _ n g hqg).1, ?_⟩
    obtain ⟨front, hf⟩ := selectFront_total (L := L) (s := w.state) g.ticket.key
      (UInt64.ofNat g.place)
    cases front with
    | none => exact ⟨(w.state, false), by simp [tryStart, hf]⟩
    | some i =>
      obtain ⟨_, p, _, _, _, _, _, _, hp, _⟩ := selectFront_some hf
      have hle := total_le (f := queuedOne) hg
      rw [← h.owned.queued_count] at hle
      simp only [queuedOne, ha, Bool.false_eq_true, ↓reduceIte] at hle
      have hsub : checkedSub w.state.queued 1 = some (w.state.queued - 1) := by
        simp [checkedSub, hle]
      simp [tryStart, hf, hp, hsub]
  drop := by
    intro n g hg
    obtain ⟨p, hp⟩ := (h.balanced.present g.ticket.key).mpr (h.ticket_present hg)
    cases ha : g.ticket.active with
    | true =>
      have hone := total_le (f := activeOne) hg
      rw [← h.owned.active_count] at hone
      have hof := total_le (f := activeOf g.ticket.key) hg
      rw [← h.owned.partition_active, entry_of_lookup hp] at hof
      simp only [activeOne, activeOf, ha, and_self, ↓reduceIte] at hone hof
      simp [dropTicket, hp, Ticket.leave, ha, checkedSub, hone, hof]
    | false =>
      have hle := total_le (f := queuedOne) hg
      rw [← h.owned.queued_count] at hle
      simp only [queuedOne, ha, Bool.false_eq_true, ↓reduceIte] at hle
      rw [dropTicket]
      simp [hp, Ticket.leave, ha, checkedSub, hle,
        (h.owned.live_queued _ n g ⟨hg, ha, rfl⟩).1]

/-- In every run with positive limits all views of the admission state agree, the limits
hold, and no index, `unwrap` or subtraction of a further operation can fail. -/
theorem admission_accounting {L : Limits} (hL : L.Positive) {es : List (Event κ)} {w : World κ}
    (hwrap : (machine L).Along (fun _ _ v => NoWrap v) World.initial es)
    (hrun : (machine L).run World.initial es = some w) : Accounting L w ∧ PanicFree L w := by
  obtain ⟨hi, hn⟩ := invariant_run hL (invariant_start L) hwrap hrun
  exact ⟨hi.accounting hn, hi.panic_free⟩

theorem enqueued_le {L : Limits} {w v : World κ} {e : Event κ} (h : next L w e = some v) :
    v.enqueued ≤ w.enqueued + 1 := by
  rcases next_cases h with ⟨_, _, _, rfl⟩ | ⟨_, _, _, _, rfl⟩ | ⟨_, _, _, _, rfl⟩ |
    ⟨_, _, _, _, _, _, _, _, rfl⟩ | ⟨_, _, _, _, _, _, _, _, _, rfl⟩ | ⟨_, _, _, _, _, _, rfl⟩
  all_goals simp [World.receive, World.activate]

/-- Identifiers cannot repeat in a run of at most `2^64` events. -/
theorem noWrap_of_length {L : Limits} {w : World κ} {es : List (Event κ)}
    (h : w.enqueued + es.length ≤ 2 ^ 64) :
    (machine L).Along (fun _ _ v => NoWrap v) w es := by
  induction es generalizing w with
  | nil => trivial
  | cons e es ih =>
    intro v hv
    have hle := enqueued_le hv
    rw [List.length_cons] at h
    refine ⟨?_, ih (by omega)⟩
    intro k n g _
    omega

theorem admission_accounting_handover :
    ∃ w, (machine ⟨1, 1, 2, 2⟩).run World.initial
        [.enter "a", .enter "b", .drop 0, .start 1] = some w ∧
      w.admitted = [("a", 0), ("b", 1)] ∧
      Accounting ⟨1, 1, 2, 2⟩ w ∧ PanicFree ⟨1, 1, 2, 2⟩ w := by
  have hrun : ((machine ⟨1, 1, 2, 2⟩).run World.initial
      [.enter "a", .enter "b", .drop 0, .start 1]).any
        (fun w => w.admitted = [("a", 0), ("b", 1)]) := by decide
  obtain ⟨w, hw, hlog⟩ := (Option.any_eq_true _ _).mp hrun
  exact ⟨w, hw, by simpa using hlog,
    admission_accounting ⟨by decide, by decide, by decide, by decide⟩
    (noWrap_of_length (by decide)) hw⟩

end AdmissionInvariant
