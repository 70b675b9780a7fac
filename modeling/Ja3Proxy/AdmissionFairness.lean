import Ja3Proxy.AdmissionInvariant

/-! Bounded overtaking of waiting partitions and the order of admission inside one.
The index of a waiting partition in the order plus the number of admissions since then
is the potential of the argument. -/
namespace AdmissionFairness

open FiniteMaps AdmissionState AdmissionInvariant TransitionRuns

variable {κ : Type} [DecidableEq κ]

def KeepsWaiting (K : κ) (w : World κ) (_ : Event κ) (v : World κ) : Prop :=
  (entry v.state.partitions K).waiting ≠ [] ∧
  v.admitted.filter (·.1 = K) = w.admitted.filter (·.1 = K)

instance (K : κ) (w : World κ) (e : Event κ) (v : World κ) :
    Decidable (KeepsWaiting K w e v) := inferInstanceAs (Decidable (_ ∧ _))

structure Contending (L : Limits) (K : κ) (w : World κ) : Prop where
  shape : Shape w.state
  mem_order : K ∈ w.state.order
  room : (entry w.state.partitions K).active < L.partitionActiveLimit

def position (K : κ) (w : World κ) : ℕ := w.state.order.idxOf K

/-- The tickets admitted between `w` and `v` all come from other partitions, and each of
them brought `K` forward. -/
def Overtaken (K : κ) (w v : World κ) : Prop :=
  ∃ new, v.admitted = w.admitted ++ new ∧ (∀ a ∈ new, a.1 ≠ K) ∧
    position K v + new.length ≤ position K w

theorem overtaken_refl (K : κ) (w : World κ) : Overtaken K w w := ⟨[], by simp⟩

theorem overtaken_trans {K : κ} {w u v : World κ} (h : Overtaken K w u) (k : Overtaken K u v) :
    Overtaken K w v := by
  obtain ⟨xs, hx, hxk, hxl⟩ := h
  obtain ⟨ys, hy, hyk, hyl⟩ := k
  refine ⟨xs ++ ys, by rw [hy, hx, List.append_assoc], ?_, ?_⟩
  · intro a ha
    rcases List.mem_append.mp ha with ha | ha
    · exact hxk a ha
    · exact hyk a ha
  · rw [List.length_append]
    omega

theorem Contending.eligible {L : Limits} {K : κ} {w : World κ} (h : Contending L K w) :
    eligible L w.state K = true :=
  (h.shape.eligible_iff h.mem_order).mpr h.room

/-- An eligible waiting partition closes the fast path of `enter` for every key. -/
theorem Contending.canStart {L : Limits} {K : κ} {w : World κ} (h : Contending L K w) (key : κ) :
    canStart L w.state key ≠ some true := by
  intro hc
  obtain ⟨_, _, _, hsat⟩ := canStart_true hc
  have := h.eligible
  rw [hsat K h.mem_order] at this
  cases this

theorem Contending.enter_waits {L : Limits} {K : κ} {w : World κ} (h : Contending L K w) {key : κ}
    {s : State κ} {t : Ticket κ} (he : enter L w.state key = some (s, .ok t)) :
    t.active = false := by
  rcases enter_cases he with ⟨hc, _, _⟩ | ⟨_, _, _, hr⟩ | ⟨_, _, _, hr⟩
  · exact absurd hc (h.canStart key)
  · cases hr
  · cases hr; rfl

private theorem idxOf_filter_le {α : Type} [DecidableEq α] {p : α → Bool} {a : α} (hp : p a = true)
    (l : List α) : (l.filter p).idxOf a ≤ l.idxOf a := by
  induction l with
  | nil => simp
  | cons b l ih =>
    by_cases hb : b = a
    · subst b; simp [hp]
    · cases hpb : p b with
      | true => simpa [hpb, List.idxOf_cons_ne _ hb] using ih
      | false => simpa [hpb, List.idxOf_cons_ne _ hb] using Nat.le_succ_of_le ih

/-- A start of another partition takes it out from before `K` and puts it behind. -/
private theorem idxOf_startFront {α : Type} [DecidableEq α] {before after tail : List α} {a b : α}
    (hb : b ≠ a) (hbefore : a ∉ before) (hafter : a ∈ after) :
    (before ++ after ++ tail).idxOf a + 1 = (before ++ b :: after).idxOf a := by
  rw [List.append_assoc, List.idxOf_append_of_notMem hbefore, List.idxOf_append_of_mem hafter,
    List.idxOf_append_of_notMem hbefore, List.idxOf_cons_ne _ hb]
  omega

theorem contending_enqueue {L : Limits} {K : κ} {w : World κ} (key : κ) (h : Contending L K w)
    (t : Ticket κ) : Contending L K (w.receive (w.state.enqueue key) t) ∧
      position K (w.receive (w.state.enqueue key) t) = position K w := by
  refine ⟨⟨shape_enqueue h.shape key, ?_, ?_⟩, ?_⟩
  · by_cases hw : (entry w.state.partitions key).waiting = []
    · simp [World.receive, State.enqueue, hw, h.mem_order]
    · simp [World.receive, State.enqueue, hw, h.mem_order]
  · have hroom := h.room
    by_cases hk : K = key
    · subst hk
      simpa [World.receive, State.enqueue] using hroom
    · simpa [World.receive, State.enqueue, hk] using hroom
  · by_cases hw : (entry w.state.partitions key).waiting = []
    · simp [position, World.receive, State.enqueue, hw, List.idxOf_append_of_mem h.mem_order]
    · simp [position, World.receive, State.enqueue, hw]

theorem contending_start {L : Limits} {K : κ} {w : World κ} {n : ℕ} {g : Held κ} {id : UInt64}
    {s : State κ} (h : Contending L K w) (hs : tryStart L w.state g.ticket.key id = some (s, true))
    (hk : g.ticket.key ≠ K) : Contending L K (w.activate s n g) ∧
      position K (w.activate s n g) + 1 = position K w := by
  have hshape := shape_tryStart h.shape hs
  rcases tryStart_cases hs with
    ⟨_, _, hb⟩ | ⟨_, _, _, p, rest, before, after, ho, hmin, _, _, _, rfl⟩
  · cases hb
  have hbefore : K ∉ before := by
    intro hin
    have := h.eligible
    rw [hmin K hin] at this
    cases this
  have hafter : K ∈ after := by
    have hin := h.mem_order
    rw [ho] at hin
    simpa [hbefore, Ne.symm hk] using hin
  refine ⟨⟨hshape, ?_, ?_⟩, ?_⟩
  · simp [World.activate, State.startFront, hafter]
  · simpa [World.activate, State.startFront, Ne.symm hk] using h.room
  · unfold position
    rw [ho]
    exact idxOf_startFront hk hbefore hafter

theorem contending_drop {L : Limits} {K : κ} {w : World κ} {n : ℕ} {t : Ticket κ} {s : State κ}
    (h : Contending L K w) (hs : dropTicket w.state t = some s)
    (hw : (entry s.partitions K).waiting ≠ []) :
    Contending L K { w with state := s, live := w.live.erase n } ∧
      position K { w with state := s, live := w.live.erase n } ≤ position K w := by
  have hshape := shape_dropTicket h.shape hs
  obtain ⟨p, q, hp, hl, _, _, rfl⟩ := dropTicket_cases hs
  refine ⟨⟨hshape, (hshape.mem_order K).mpr hw, ?_⟩, ?_⟩
  · have hroom := h.room
    by_cases hk : K = t.key
    · subst hk
      rw [entry_of_lookup hp] at hroom
      have hle : q.active ≤ p.active := by
        rcases leave_cases hl with ⟨_, _, rfl⟩ | ⟨_, _, _, rfl⟩ | ⟨_, _, rfl⟩
        · exact Nat.sub_le _ _
        · exact le_rfl
        · exact le_rfl
      simp only [State.withoutTicket, entry_store, ↓reduceIte]
      omega
    · simpa [State.withoutTicket, hk] using hroom
  · by_cases hq : q.waiting = []
    · have hk : K ≠ t.key := by
        rintro rfl
        exact hw (by simp [State.withoutTicket, hq])
      simpa [position, State.withoutTicket, hq] using
        idxOf_filter_le (p := (· ≠ t.key)) (by simpa using hk) w.state.order
    · simp [position, State.withoutTicket, hq]

theorem contending_step {L : Limits} {K : κ} {w v : World κ} {e : Event κ}
    (h : Contending L K w) (hc : KeepsWaiting K w e v) (hn : next L w e = some v) :
    Contending L K v ∧ Overtaken K w v := by
  rcases next_cases hn with ⟨key, _, hstart, _⟩ | ⟨_, _, _, _, rfl⟩ | ⟨key, _, _, _, rfl⟩ |
    ⟨_, _, _, _, _, _, _, _, rfl⟩ | ⟨n, g, id, s, _, _, _, _, hs, rfl⟩ |
    ⟨n, g, s, _, _, hs, rfl⟩
  · exact absurd hstart (h.canStart key)
  · exact ⟨h, overtaken_refl K v⟩
  · obtain ⟨hv, hpos⟩ := contending_enqueue key h ⟨key, some w.state.next, false⟩
    exact ⟨hv, [], by simp [World.receive], by simp, by simp [hpos]⟩
  · exact ⟨h, overtaken_refl K v⟩
  · have hk : g.ticket.key ≠ K := by
      intro hk
      have := hc.2
      simp [World.activate, hk] at this
    obtain ⟨hv, hpos⟩ := contending_start (n := n) h hs hk
    exact ⟨hv, [(g.ticket.key, n)], rfl, by simpa using hk, by simp [hpos]⟩
  · obtain ⟨hv, hpos⟩ := contending_drop (n := n) h hs hc.1
    exact ⟨hv, [], by simp, by simp, by simpa using hpos⟩

theorem contending_run {L : Limits} {K : κ} {w v : World κ} {es : List (Event κ)}
    (h : Contending L K w) (hc : (machine L).Along (KeepsWaiting K) w es)
    (hrun : (machine L).run w es = some v) : Contending L K v ∧ Overtaken K w v := by
  refine Machine.run_preserves_along (C := KeepsWaiting K)
    (P := fun u => Contending L K u ∧ Overtaken K w u) ?_ ⟨h, overtaken_refl K w⟩ hc hrun
  rintro s e t ⟨hs, hover⟩ hk hn
  obtain ⟨ht, hstep⟩ := contending_step hs hk hn
  exact ⟨ht, overtaken_trans hover hstep⟩

structure Fifo (w : World κ) : Prop where
  admitted_sorted : ∀ k, ((w.admitted.filter (·.1 = k)).map Prod.snd).Pairwise (· < ·)
  queued_later : ∀ k n g, Queued w k n g → ∀ m, (k, m) ∈ w.admitted → m < n

structure Ordered (w : World κ) : Prop where
  owned : Owned w
  fifo : Fifo w
  admitted_issued : ∀ a ∈ w.admitted, a.2 < w.issued

theorem fifo_admit {w v : World κ} {k : κ} {n : ℕ} (h : Fifo w)
    (hv : v.admitted = w.admitted ++ [(k, n)]) (hbefore : ∀ m, (k, m) ∈ w.admitted → m < n)
    (hq : ∀ l m g, Queued v l m g → Queued w l m g)
    (hafter : ∀ m g, Queued v k m g → n < m) : Fifo v := by
  constructor
  · intro l
    rw [hv, List.filter_append, List.map_append, List.pairwise_append]
    by_cases hl : k = l
    · subst hl
      refine ⟨h.admitted_sorted k, by simp, ?_⟩
      intro a ha b hb
      obtain ⟨⟨k', m⟩, hm, rfl⟩ := List.mem_map.mp ha
      obtain ⟨hmem, hk'⟩ := List.mem_filter.mp hm
      have hk' : k' = k := by simpa using hk'
      have hbn : b = n := by simpa using hb
      rw [hbn]
      exact hbefore m (hk' ▸ hmem)
    · simpa [hl] using h.admitted_sorted l
  · intro l m g hg a ha
    rw [hv, List.mem_append, List.mem_singleton, Prod.mk.injEq] at ha
    rcases ha with ha | ⟨rfl, rfl⟩
    · exact h.queued_later l m g (hq l m g hg) a ha
    · exact hafter m g hg

/-- The front of a waiting queue belongs to the oldest queued ticket of its partition. -/
theorem front_oldest {w : World κ} {k : κ} {n m : ℕ} {g f : Held κ} {rest : List UInt64}
    (h : Owned w) (hw : NoWrap w) (hg : Queued w k n g) (hf : Queued w k m f) (hne : m ≠ n)
    (hfront : (entry w.state.partitions k).waiting = UInt64.ofNat g.place :: rest) : n < m := by
  obtain ⟨places, hpl, hsort, hmem⟩ := h.waiting_places k
  rw [hfront] at hpl
  cases places with
  | nil => simp at hpl
  | cons a places =>
    obtain ⟨l, e, he, rfl⟩ := (hmem a).mp List.mem_cons_self
    have hplace : e.place = g.place := by
      apply h.place_of_id hw he hg
      simpa using (List.cons.inj hpl).1.symm
    have hle : g.place ≤ f.place := by
      rcases List.mem_cons.mp ((hmem f.place).mpr ⟨m, f, hf, rfl⟩) with heq | hin
      · omega
      · have := (List.pairwise_cons.mp hsort).1 f.place hin
        omega
    rcases Nat.lt_trichotomy n m with hlt | heq | hlt
    · exact hlt
    · exact absurd heq.symm hne
    · have := h.place_mono k k m n f g hf hg hlt
      omega

theorem ordered_startNew {L : Limits} {w : World κ} {key : κ} (h : Ordered w)
    (hc : canStart L w.state key = some true) :
    Fifo (w.receive (w.state.startNew key) ⟨key, none, true⟩) := by
  have hq : ∀ l m g, Queued (w.receive (w.state.startNew key) ⟨key, none, true⟩) l m g →
      Queued w l m g := by
    intro l m g hg
    rcases (queued_receive h.owned.fresh).mp hg with hg | ⟨_, _, ha, _⟩
    · exact hg
    · cases ha
  refine fifo_admit h.fifo rfl (fun m hm => h.admitted_issued _ hm) hq ?_
  intro m g hg
  have := h.owned.id_waiting (hq key m g hg)
  rw [(canStart_true hc).2.1] at this
  cases this

theorem ordered_enqueue {w : World κ} {key : κ} (h : Ordered w) :
    Fifo (w.receive (w.state.enqueue key) ⟨key, some w.state.next, false⟩) := by
  refine ⟨by simpa [World.receive] using h.fifo.admitted_sorted, ?_⟩
  intro l m g hg a ha
  have ha : (l, a) ∈ w.admitted := by simpa [World.receive] using ha
  rcases (queued_receive h.owned.fresh).mp hg with hg | ⟨rfl, _⟩
  · exact h.fifo.queued_later l m g hg a ha
  · exact h.admitted_issued _ ha

theorem ordered_activate {L : Limits} {w : World κ} {s : State κ} {n : ℕ} {g : Held κ}
    {id : UInt64} (h : Ordered w) (hw : NoWrap w) (hg : w.live.lookup n = some g)
    (hact : g.ticket.active = false) (hid : g.ticket.id = some id)
    (hs : tryStart L w.state g.ticket.key id = some (s, true)) : Fifo (w.activate s n g) := by
  have hqg : Queued w g.ticket.key n g := ⟨hg, hact, rfl⟩
  refine fifo_admit h.fifo rfl (h.fifo.queued_later _ n g hqg)
    (fun l m f hf => (queued_activate.mp hf).1) ?_
  intro m f hf
  obtain ⟨hf, hne⟩ := queued_activate.mp hf
  rcases tryStart_cases hs with ⟨_, _, hb⟩ | ⟨_, _, _, p, rest, _, _, _, _, hp, _, hwait, _⟩
  · cases hb
  · have hfront : (entry w.state.partitions g.ticket.key).waiting =
        UInt64.ofNat g.place :: rest := by
      rw [entry_of_lookup hp, hwait,
        Option.some.inj (hid.symm.trans (h.owned.live_queued _ n g hqg).1)]
    exact front_oldest h.owned hw hqg hf hne hfront

theorem ordered_step {L : Limits} {w v : World κ} {e : Event κ} (h : Ordered w) (hw : NoWrap w)
    (hn : next L w e = some v) : Ordered v := by
  have ho := owned_step h.owned hw hn
  rcases next_cases hn with ⟨key, _, hc, rfl⟩ | ⟨_, _, _, _, rfl⟩ | ⟨key, _, _, hf, rfl⟩ |
    ⟨_, _, _, _, _, _, _, _, rfl⟩ | ⟨n, g, id, s, _, hg, ha, hid, hs, rfl⟩ |
    ⟨n, g, s, _, hg, hs, rfl⟩
  · refine ⟨ho, ordered_startNew h hc, ?_⟩
    intro a ha
    rcases List.mem_append.mp (show a ∈ w.admitted ++ [(key, w.issued)] from ha) with ha | ha
    · exact Nat.lt_succ_of_lt (h.admitted_issued a ha)
    · rw [List.mem_singleton.mp ha]
      exact Nat.lt_succ_self _
  · exact h
  · exact ⟨ho, ordered_enqueue h, fun a ha => Nat.lt_succ_of_lt (h.admitted_issued a ha)⟩
  · exact h
  · refine ⟨ho, ordered_activate h hw hg ha hid hs, ?_⟩
    intro a ha
    rcases List.mem_append.mp (show a ∈ w.admitted ++ [(g.ticket.key, n)] from ha) with ha | ha
    · exact h.admitted_issued a ha
    · rw [List.mem_singleton.mp ha]
      exact h.owned.live_issued n g hg
  · refine ⟨ho, ⟨h.fifo.admitted_sorted, ?_⟩, h.admitted_issued⟩
    intro l m f hf
    exact h.fifo.queued_later l m f (queued_erase.mp hf).1

theorem ordered_initial : Ordered (World.initial : World κ) :=
  ⟨owned_initial, ⟨by simp [World.initial], by simp [World.initial, Queued]⟩,
    by simp [World.initial]⟩

theorem fifo_run {L : Limits} {w : World κ} {es : List (Event κ)}
    (hwrap : (machine L).Along (fun _ _ v => NoWrap v) World.initial es)
    (hrun : (machine L).run World.initial es = some w) : Fifo w := by
  have hstart : Ordered (World.initial : World κ) ∧ NoWrap (World.initial : World κ) :=
    ⟨ordered_initial, by simp [NoWrap, Queued, World.initial]⟩
  have := Machine.run_preserves_along (C := fun _ _ u => NoWrap u)
    (P := fun u => Ordered u ∧ NoWrap u)
    (fun _ _ _ hs hc hn => ⟨ordered_step hs.1 hs.2 hn, hc⟩) hstart hwrap hrun
  exact this.1.fifo

theorem shape_step {L : Limits} {w v : World κ} {e : Event κ} (h : Shape w.state)
    (hn : next L w e = some v) : Shape v.state := by
  rcases next_cases hn with ⟨key, _, _, rfl⟩ | ⟨_, _, _, _, rfl⟩ | ⟨key, _, _, _, rfl⟩ |
    ⟨_, _, _, _, _, _, _, _, rfl⟩ | ⟨_, _, _, _, _, _, _, _, hs, rfl⟩ | ⟨_, _, _, _, _, hs, rfl⟩
  · exact shape_startNew h key
  · exact h
  · exact shape_enqueue h key
  · exact h
  · exact shape_tryStart h hs
  · exact shape_dropTicket h hs

/-- What a waiting partition `K` with room can count on between `w` and a later `v`, with
`u` any state in between. -/
structure Bounded (L : Limits) (K : κ) (w u v : World κ) : Prop where
  eligible : eligible L v.state K = true
  mem_order : K ∈ v.state.order
  position_le : position K v ≤ position K u
  enter_waits : ∀ key s t, enter L v.state key = some (s, .ok t) → t.active = false
  admissions : ∃ new, v.admitted = w.admitted ++ new ∧ (∀ a ∈ new, a.1 ≠ K) ∧
    new.length ≤ position K w

/-- Bounded overtaking holds in every run. Admission in the order of arrival needs that
identifiers do not wrap onto a ticket that is still queued. -/
theorem bounded_overtaking {L : Limits} {es : List (Event κ)} {w : World κ}
    (hrun : (machine L).run World.initial es = some w) :
    (∀ K ∈ w.state.order, (entry w.state.partitions K).active < L.partitionActiveLimit →
      ∀ fs u gs v, (machine L).run w fs = some u → (machine L).run u gs = some v →
        (machine L).Along (KeepsWaiting K) w (fs ++ gs) → Bounded L K w u v) ∧
    ((machine L).Along (fun _ _ v => NoWrap v) World.initial es → Fifo w) := by
  refine ⟨?_, fun hwrap => fifo_run hwrap hrun⟩
  intro K hin hroom fs u gs v hu hv hkeep
  have hshape : Shape w.state :=
    Machine.reachable_preserves (M := machine L) (P := fun x => Shape x.state) shape_initial
      (fun _ _ _ => shape_step) ⟨es, hrun⟩
  obtain ⟨hfs, hgs⟩ := (Machine.along_append hu).mp hkeep
  obtain ⟨hcu, hwu⟩ := contending_run ⟨hshape, hin, hroom⟩ hfs hu
  obtain ⟨hcv, huv⟩ := contending_run hcu hgs hv
  obtain ⟨new, hnew, hother, hlen⟩ := overtaken_trans hwu huv
  obtain ⟨_, _, _, hpos⟩ := huv
  exact ⟨hcv.eligible, hcv.mem_order, by omega, fun _ _ _ => hcv.enter_waits,
    new, hnew, hother, by omega⟩

theorem bounded_overtaking_two_partitions :
    ∃ w u v : World String, (machine ⟨1, 1, 4, 4⟩).run World.initial
        [.enter "a", .enter "b", .enter "c"] = some w ∧
      (machine ⟨1, 1, 4, 4⟩).run w [.drop 0, .start 1] = some u ∧
      (machine ⟨1, 1, 4, 4⟩).run u [.enter "a"] = some v ∧
      position "c" w = 1 ∧ v.admitted = [("a", 0), ("b", 1)] ∧
      Bounded ⟨1, 1, 4, 4⟩ "c" w u v ∧ Fifo w := by
  have hrun : ((machine ⟨1, 1, 4, 4⟩).run World.initial
      [.enter "a", .enter "b", .enter "c"]).any (fun w => position "c" w = 1 ∧
        "c" ∈ w.state.order ∧ (entry w.state.partitions "c").active < 1 ∧
        (machine ⟨1, 1, 4, 4⟩).Along (KeepsWaiting "c") w ([.drop 0, .start 1] ++ [.enter "a"]) ∧
        ((machine ⟨1, 1, 4, 4⟩).run w [.drop 0, .start 1]).any (fun u =>
          ((machine ⟨1, 1, 4, 4⟩).run u [.enter "a"]).any
            (fun v => v.admitted = [("a", 0), ("b", 1)]))) := by decide
  obtain ⟨w, hw, hb⟩ := (Option.any_eq_true _ _).mp hrun
  obtain ⟨hpos, hin, hroom, hkeep, hrest⟩ := of_decide_eq_true hb
  obtain ⟨u, hu, hb⟩ := (Option.any_eq_true _ _).mp hrest
  obtain ⟨v, hv, hb⟩ := (Option.any_eq_true _ _).mp hb
  obtain ⟨hbound, hfifo⟩ := bounded_overtaking hw
  exact ⟨w, u, v, hw, hu, hv, hpos, of_decide_eq_true hb,
    hbound "c" hin hroom _ u _ v hu hv hkeep, hfifo (noWrap_of_length (by decide))⟩

def cycled (j : ℕ) : World Unit where
  state :=
    { active := 1, queued := 1, next := UInt64.ofNat (j + 1), order := [()]
      partitions := AList.singleton () ⟨1, [0]⟩ }
  live := (AList.singleton 0 ⟨0, ⟨(), none, true⟩⟩).insert 1 ⟨0, ⟨(), some 0, false⟩⟩
  issued := j + 2
  enqueued := j + 1
  admitted := [((), 0)]

private theorem erase_insert_new {β : Type} {m : AList (fun _ : ℕ => β)} {a : ℕ} {b : β}
    (h : a ∉ m) : (m.insert a b).erase a = m := by
  apply AList.ext
  change List.kerase a (m.insert a b).entries = m.entries
  rw [AList.entries_insert_of_notMem h]
  exact List.kerase_cons_eq rfl

private theorem cycled_fresh (j : ℕ) : j + 2 ∉ (cycled j).live := by
  rw [← AList.lookup_eq_none]
  rfl

def oneSlot : Limits := ⟨1, 1, 2, 2⟩

theorem cycled_start :
    (machine oneSlot).run World.initial [.enter (), .enter ()] = some (cycled 0) := by
  rfl

def crowded (j : ℕ) : World Unit :=
  (cycled j).receive ((cycled j).state.enqueue ()) ⟨(), some (cycled j).state.next, false⟩

theorem cycled_enter (j : ℕ) :
    (machine oneSlot).next (cycled j) (.enter ()) = some (crowded j) := by
  rfl

private theorem ofNat_ne_zero {j : ℕ} (hj : j + 1 < 2 ^ 64) :
    (0 : UInt64) ≠ UInt64.ofNat (j + 1) := by
  intro h
  have := congrArg UInt64.toNat h
  rw [UInt64.toNat_ofNat_of_lt' hj] at this
  simp at this

theorem crowded_dropTicket {j : ℕ} (hj : j + 1 < 2 ^ 64) :
    dropTicket (crowded j).state ⟨(), some (cycled j).state.next, false⟩ =
      some (cycled (j + 1)).state := by
  have hp : (crowded j).state.partitions.lookup () = some ⟨1, [0, UInt64.ofNat (j + 1)]⟩ := rfl
  have hleave : Ticket.leave ⟨(), some (cycled j).state.next, false⟩
      ⟨1, [0, UInt64.ofNat (j + 1)]⟩ = some ⟨1, [0]⟩ := by
    have hne := ofNat_ne_zero hj
    simp only [Ticket.leave, cycled, Bool.false_eq_true, ↓reduceIte, List.filter_cons, hne, ne_eq,
      not_false_eq_true, decide_true, not_true_eq_false, decide_false, List.filter_nil]
  have hnext : (crowded j).state.next = UInt64.ofNat (j + 1 + 1) :=
    (UInt64.ofNat_add (j + 1) 1).symm
  simp only [dropTicket, hp, Option.bind_eq_bind, Option.bind_some, hleave, hnext]
  rfl

theorem cycled_drop {j : ℕ} (hj : j + 1 < 2 ^ 64) :
    (machine oneSlot).next (crowded j) (.drop (j + 2)) = some (cycled (j + 1)) := by
  have hl : (crowded j).live.lookup (j + 2) =
      some ⟨j + 1, ⟨(), some (cycled j).state.next, false⟩⟩ := AList.lookup_insert _
  have hlive : (crowded j).live.erase (j + 2) = (cycled (j + 1)).live :=
    erase_insert_new (cycled_fresh j)
  simp only [machine, next, hl, crowded_dropTicket hj, Option.map_some, hlive]
  rfl

theorem cycled_run {j : ℕ} (hj : j < 2 ^ 64) :
    ∃ es, (machine oneSlot).run World.initial es = some (cycled j) := by
  induction j with
  | zero => exact ⟨_, cycled_start⟩
  | succ j ih =>
    obtain ⟨es, hes⟩ := ih (by omega)
    have hcycle : (machine oneSlot).run (cycled j) [.enter (), .drop (j + 2)] =
        some (cycled (j + 1)) := by
      simp [Machine.run, cycled_enter, cycled_drop hj]
    exact ⟨_, Machine.run_trans hes hcycle⟩

/-- After `2^64` tickets were queued behind it, the oldest queued ticket shares its
identifier with the youngest, which is admitted in its place. -/
theorem wrapped_identifier_overtakes :
    ¬ ∀ (es : List (Event Unit)) (w : World Unit),
      (machine oneSlot).run World.initial es = some w → Fifo w := by
  intro h
  obtain ⟨es, hes⟩ := cycled_run (j := 2 ^ 64 - 1) (by omega)
  have hlast : ∃ w, (machine oneSlot).run (cycled (2 ^ 64 - 1))
      [.enter (), .drop 0, .start (2 ^ 64 + 1)] = some w ∧
      ((), 2 ^ 64 + 1) ∈ w.admitted ∧ Queued w () 1 ⟨0, ⟨(), some 0, false⟩⟩ := by
    refine ⟨_, rfl, ?_, rfl, rfl, rfl⟩
    exact List.mem_cons_of_mem _ List.mem_cons_self
  obtain ⟨w, hw, hadm, hq⟩ := hlast
  have := (h _ w (Machine.run_trans hes hw)).queued_later () 1 _ hq _ hadm
  omega

end AdmissionFairness
