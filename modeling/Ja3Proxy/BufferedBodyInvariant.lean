import Ja3Proxy.BufferedBodySteps
import Ja3Proxy.ListTotals

/-! The invariant of all calls of `buffer` on one client, and what follows for whole runs. -/
namespace BufferedBody

open TransitionRuns TypedArrays ListTotals

variable {S : ℕ → Prop} {i : ℕ}

def Call.held (c : Call) : ℕ := if c.stage.ended then 0 else c.vars.retained

def reserved (calls : List Call) : ℕ := total Call.held calls

/-- No view of `d` lies in the buffer that `c` may write. -/
def Apart (S : ℕ → Prop) (c d : Call) : Prop :=
  c.stage.active → d.stage.active → ∀ v ∈ d.vars.views, ¬ Own S c.vars v.buffer

structure Invariant (w : World) : Prop where
  stream : ∀ p ∈ w.supplied, p.1 < w.store.heap.fresh ∧ p.1 ∉ w.store.heap.written ∧
    w.store.heap.bytes p.1 = p.2
  wrote : ∀ a ∈ w.store.heap.written, a < w.store.heap.fresh
  sound : ∀ (i : ℕ) (c : Call), w.calls[i]? = some c → c.Sound w.Streamed w.store.heap
  apart : ∀ (i j : ℕ) (c d : Call), i ≠ j → w.calls[i]? = some c → w.calls[j]? = some d →
    Apart w.Streamed c d
  total : w.store.budget.retained = reserved w.calls
  within : w.store.budget.retained ≤ w.store.budget.limit
  ledger : ∀ (i : ℕ) (c : Call), w.calls[i]? = some c → w.store.budget.granted i = c.vars.retained ∧
    w.store.budget.returned i + c.held = c.vars.retained
  unused : ∀ i : ℕ, w.calls[i]? = none →
    w.store.budget.granted i = 0 ∧ w.store.budget.returned i = 0

section World

variable {w w' : World}

theorem Invariant.streamed_lt (h : Invariant w) {a : ℕ} (ha : w.Streamed a) :
    a < w.store.heap.fresh := by
  obtain ⟨p, hp, rfl⟩ := List.mem_map.mp ha
  exact (h.stream p hp).1

/-- A call does not notice that another buffer becomes a stream's. -/
theorem Call.Sound.streams {T : ℕ → Prop} {h : Heap} {c : Call} (hc : c.Sound S h)
    (hT : ∀ a, a < h.fresh → (T a ↔ S a)) : c.Sound T h where
  pending := hc.pending
  active hactive := by
    have hs := hc.active hactive
    have hiff := hT _ hs.current_valid.live
    exact
      { hs with
        borrowed := fun ht => hs.borrowed (hiff.mp ht)
        apart := fun ht => hs.apart fun h => ht (hiff.mpr h) }
  result := hc.result
  failure := hc.failure

theorem invariant_supply (h : Invariant w) (bytes : List UInt8) :
    Invariant { w with
      store := { w.store with heap := w.store.heap.insert bytes }
      supplied := w.supplied ++ [(w.store.heap.fresh, bytes)] } := by
  have hstreams : ∀ a, a ∈ (w.supplied ++ [(w.store.heap.fresh, bytes)]).map Prod.fst ↔
      w.Streamed a ∨ a = w.store.heap.fresh := by
    intro a
    simp [World.Streamed]
  constructor
  case stream =>
    intro p hp
    rcases List.mem_append.mp hp with hp | hp
    · obtain ⟨hlt, hwritten, hbytes⟩ := h.stream p hp
      refine ⟨?_, hwritten, ?_⟩
      · rw [Heap.fresh_insert]
        exact Nat.lt_succ_of_lt hlt
      · rw [Heap.bytes_insert_of_lt hlt]
        exact hbytes
    · rw [List.mem_singleton.mp hp]
      refine ⟨?_, fun hin => Nat.lt_irrefl _ (h.wrote _ hin), Heap.bytes_insert_fresh bytes⟩
      rw [Heap.fresh_insert]
      exact Nat.lt_succ_self _
  case wrote =>
    intro a ha
    rw [Heap.fresh_insert]
    exact Nat.lt_succ_of_lt (h.wrote a ha)
  case sound =>
    intro j c hc
    have hsound := (h.sound j c hc).streams fun a ha => (hstreams a).trans
      (or_iff_left (Nat.ne_of_lt ha))
    exact hsound.frame (.insert (fun _ => False) _ bytes) fun _ _ _ hfalse => hfalse
  case apart =>
    intro j k c d hne hc hd hactive hactive' v hv hown
    apply h.apart j k c d hne hc hd hactive hactive' v hv
    exact ⟨hown.1, fun hs => hown.2 ((hstreams _).mpr (.inl hs))⟩
  case total => exact h.total
  case within => exact h.within
  case ledger => exact h.ledger
  case unused => exact h.unused

theorem invariant_start (h : Invariant w) :
    Invariant { w with calls := w.calls ++ [Call.initial] } := by
  constructor
  case stream => exact h.stream
  case wrote => exact h.wrote
  case sound =>
    intro j c hc
    rcases getElem?_append_cases hc with hc | ⟨-, rfl⟩
    · exact h.sound j c hc
    · exact ⟨fun _ => rfl, by simp [Call.initial, Stage.active], by simp [Call.initial],
        by simp [Call.initial, Stage.failure]⟩
  case apart =>
    intro j k c d hne hc hd hactive hactive'
    rcases getElem?_append_cases hc with hc | ⟨-, rfl⟩
    · rcases getElem?_append_cases hd with hd | ⟨-, rfl⟩
      · exact h.apart j k c d hne hc hd hactive hactive'
      · cases hactive'
    · cases hactive
  case total =>
    have hheld : Call.initial.held = 0 := rfl
    rw [reserved, total_append, hheld]
    exact h.total
  case within => exact h.within
  case ledger =>
    intro j c hc
    rcases getElem?_append_cases hc with hc | ⟨rfl, rfl⟩
    · exact h.ledger j c hc
    · exact h.unused _ (List.getElem?_eq_none (Nat.le_refl _))
  case unused =>
    intro j hj
    apply h.unused
    rw [List.getElem?_eq_none_iff] at hj ⊢
    rw [List.length_append] at hj
    omega

theorem step_cases {a : Act} (hstep : w.step i a = some w') :
    ∃ c r, w.Allowed a ∧ w.calls[i]? = some c ∧ c.next i w.store a = some r ∧
      w' = { w with store := r.2, calls := w.calls.set i r.1 } := by
  unfold World.step at hstep
  split at hstep
  · next hallowed =>
    obtain ⟨c, hc, hnext⟩ := Option.bind_eq_some_iff.mp hstep
    obtain ⟨r, hr, rfl⟩ := Option.map_eq_some_iff.mp hnext
    exact ⟨c, r, hallowed, hc, hr, rfl⟩
  · cases hstep

theorem Invariant.stepped {a : Act} {c : Call} {r : Call × Store} (h : Invariant w)
    (hallowed : w.Allowed a) (hc : w.calls[i]? = some c)
    (hnext : c.next i w.store a = some r) : Stepped w.Streamed i c w.store r.1 r.2 := by
  apply next_stepped (h.sound i c hc) (fun a ha => h.streamed_lt ha) _ hnext
  rintro value rfl
  exact ⟨⟨h.streamed_lt hallowed.streamed, hallowed.fits⟩, hallowed.streamed,
    hallowed.bounded⟩

section Act

variable {c : Call} {r : Call × Store} (h : Invariant w) (hc : w.calls[i]? = some c)
  (hr : Stepped w.Streamed i c w.store r.1 r.2)

include h hr

theorem stream_kept : ∀ p ∈ w.supplied, p.1 < r.2.heap.fresh ∧ p.1 ∉ r.2.heap.written ∧
    r.2.heap.bytes p.1 = p.2 := by
  intro p hp
  obtain ⟨hlt, hwritten, hbytes⟩ := h.stream p hp
  have hstreamed : w.Streamed p.1 := List.mem_map_of_mem hp
  refine ⟨Nat.lt_of_lt_of_le hlt hr.frame.grown, ?_, ?_⟩
  · intro hin
    rcases hr.frame.log _ hin with hin | ⟨hown | hfresh, -⟩
    · exact hwritten hin
    · exact hown.2.2 hstreamed
    · exact absurd hfresh (Nat.not_le.mpr hlt)
  · rw [hr.frame.kept _ hlt fun hown => hown.2.2 hstreamed]
    exact hbytes

theorem wrote_kept : ∀ a ∈ r.2.heap.written, a < r.2.heap.fresh := by
  intro a ha
  rcases hr.frame.log a ha with ha | ⟨-, hlt⟩
  · exact Nat.lt_of_lt_of_le (h.wrote a ha) hr.frame.grown
  · exact hlt

theorem within_kept : r.2.budget.retained ≤ r.2.budget.limit := by
  have hwithin := h.within
  cases hended : r.1.stage.ended with
  | false =>
    obtain ⟨n, -, hgranted⟩ := hr.granted hended
    exact hgranted.within hwithin
  | true =>
    obtain ⟨-, hbudget⟩ := hr.released hended
    rw [hbudget]
    simp only [BufferBudget.release]
    omega

include hc

theorem sound_kept {j : ℕ} {d : Call} (hne : i ≠ j) (hd : w.calls[j]? = some d) :
    d.Sound w.Streamed r.2.heap := by
  apply (h.sound j d hd).frame hr.frame
  intro hactive v hv hown
  exact h.apart i j c d hne hc hd hown.1 hactive v hv hown.2

theorem apart_left {j : ℕ} {d : Call} (hne : i ≠ j) (hd : w.calls[j]? = some d) :
    Apart w.Streamed r.1 d := by
  intro hactive hactive' v hv hown
  rcases hr.current hactive with ⟨hold, heq⟩ | hstreamed | hfresh
  · exact h.apart i j c d hne hc hd hold hactive' v hv ⟨hown.1.trans heq, hown.2⟩
  · exact hown.2 (hown.1 ▸ hstreamed)
  · have hlive := (((h.sound j d hd).active hactive').valid v hv).live
    rw [hown.1] at hlive
    exact absurd hfresh (Nat.not_le.mpr hlive)

theorem apart_right {j : ℕ} {d : Call} (hne : j ≠ i) (hd : w.calls[j]? = some d) :
    Apart w.Streamed d r.1 := by
  intro hactive hactive' v hv hown
  rcases hr.views hactive' v hv with ⟨hold, u, hu, heq⟩ | hstreamed | hfresh
  · rw [heq] at hown
    exact h.apart j i d c hne hd hc hactive hold u hu hown
  · exact hown.2 hstreamed
  · have hlive := ((h.sound j d hd).active hactive).current_valid.live
    rw [← hown.1] at hlive
    exact absurd hfresh (Nat.not_le.mpr hlive)

theorem total_kept : r.2.budget.retained = reserved (w.calls.set i r.1) := by
  have hset : reserved (w.calls.set i r.1) + c.held = reserved w.calls + r.1.held :=
    total_set Call.held hc
  have htotal := h.total
  have hheld : c.held = c.vars.retained := by simp [Call.held, hr.unended]
  cases hended : r.1.stage.ended with
  | false =>
    obtain ⟨n, hn, hgranted⟩ := hr.granted hended
    have hheld' : r.1.held = c.vars.retained + n := by simp [Call.held, hended, hn]
    have hretained := hgranted.retained
    omega
  | true =>
    obtain ⟨-, hbudget⟩ := hr.released hended
    have hheld' : r.1.held = 0 := by simp [Call.held, hended]
    have hretained : r.2.budget.retained = w.store.budget.retained - c.vars.retained := by
      rw [hbudget]
      rfl
    omega

theorem ledger_kept : r.2.budget.granted i = r.1.vars.retained ∧
    r.2.budget.returned i + r.1.held = r.1.vars.retained := by
  obtain ⟨hgranted, hreturned⟩ := h.ledger i c hc
  have hheld : c.held = c.vars.retained := by simp [Call.held, hr.unended]
  cases hended : r.1.stage.ended with
  | false =>
    obtain ⟨n, hn, g⟩ := hr.granted hended
    have hheld' : r.1.held = c.vars.retained + n := by simp [Call.held, hended, hn]
    rw [g.granted, g.returned, Function.update_self]
    omega
  | true =>
    obtain ⟨hn, hbudget⟩ := hr.released hended
    have hheld' : r.1.held = 0 := by simp [Call.held, hended]
    rw [hbudget]
    simp only [BufferBudget.release, Function.update_self]
    omega

omit h hc

theorem ledger_other {j : ℕ} (hne : j ≠ i) :
    r.2.budget.granted j = w.store.budget.granted j ∧
      r.2.budget.returned j = w.store.budget.returned j := by
  cases hended : r.1.stage.ended with
  | false =>
    obtain ⟨n, hn, g⟩ := hr.granted hended
    rw [g.granted, g.returned, Function.update_of_ne hne]
    exact ⟨rfl, rfl⟩
  | true =>
    obtain ⟨hn, hbudget⟩ := hr.released hended
    rw [hbudget]
    exact ⟨rfl, Function.update_of_ne hne _ _⟩

end Act

theorem invariant_act {a : Act} (h : Invariant w) (hstep : w.step i a = some w') :
    Invariant w' := by
  obtain ⟨c, r, hallowed, hc, hnext, rfl⟩ := step_cases hstep
  have hr := h.stepped hallowed hc hnext
  constructor
  case stream => exact stream_kept (w := w) h hr
  case wrote => exact wrote_kept h hr
  case sound =>
    intro j d hd
    rcases getElem?_set_cases hd with ⟨-, rfl⟩ | ⟨hne, hd⟩
    · exact hr.sound
    · exact sound_kept h hc hr hne hd
  case apart =>
    intro j k d e hne hd he
    rcases getElem?_set_cases hd with ⟨rfl, rfl⟩ | ⟨hj, hd⟩
    · rcases getElem?_set_cases he with ⟨rfl, -⟩ | ⟨hk, he⟩
      · exact absurd rfl hne
      · exact apart_left h hc hr hk he
    · rcases getElem?_set_cases he with ⟨rfl, rfl⟩ | ⟨hk, he⟩
      · exact apart_right h hc hr hne hd
      · exact h.apart j k d e hne hd he
  case total => exact total_kept h hc hr
  case within => exact within_kept h hr
  case ledger =>
    intro j d hd
    rcases getElem?_set_cases hd with ⟨rfl, rfl⟩ | ⟨hne, hd⟩
    · exact ledger_kept h hc hr
    · obtain ⟨hgranted, hreturned⟩ := ledger_other hr (Ne.symm hne)
      rw [hgranted, hreturned]
      exact h.ledger j d hd
  case unused =>
    intro j hj
    have hnone : w.calls[j]? = none := by
      rw [List.getElem?_eq_none_iff] at hj ⊢
      rwa [List.length_set] at hj
    have hne : j ≠ i := by
      rintro rfl
      rw [hc] at hnone
      cases hnone
    obtain ⟨hgranted, hreturned⟩ := ledger_other hr hne
    rw [hgranted, hreturned]
    exact h.unused j hnone

theorem invariant_initial (limit : ℕ) : Invariant (machine limit).initial where
  stream p hp := absurd hp List.not_mem_nil
  wrote a ha := absurd ha List.not_mem_nil
  sound i c hc := by simp [machine] at hc
  apart i j c d _ hc := by simp [machine] at hc
  total := rfl
  within := by simp [machine]
  ledger i c hc := by simp [machine] at hc
  unused _ _ := ⟨rfl, rfl⟩

theorem invariant_next {e : Event} (h : Invariant w) (hnext : w.next e = some w') :
    Invariant w' := by
  cases e with
  | supply bytes =>
    cases hnext
    exact invariant_supply h bytes
  | start =>
    cases hnext
    exact invariant_start h
  | act i a => exact invariant_act h hnext

theorem limit_next {e : Event} (h : Invariant w) (hnext : w.next e = some w') :
    w'.store.budget.limit = w.store.budget.limit := by
  cases e with
  | supply bytes =>
    cases hnext
    rfl
  | start =>
    cases hnext
    rfl
  | act i a =>
    obtain ⟨c, r, hallowed, hc, hr, rfl⟩ := step_cases hnext
    have hstepped := h.stepped hallowed hc hr
    cases hended : r.1.stage.ended with
    | false =>
      obtain ⟨n, -, g⟩ := hstepped.granted hended
      exact g.limit
    | true =>
      obtain ⟨-, hbudget⟩ := hstepped.released hended
      simp only [hbudget, BufferBudget.release]

theorem invariant_run {limit : ℕ} {es : List Event}
    (hrun : (machine limit).run (machine limit).initial es = some w) :
    Invariant w ∧ w.store.budget.limit = limit := by
  have hstep : ∀ (u : World) (e : Event) (v : World),
      Invariant u ∧ u.store.budget.limit = limit → (machine limit).next u e = some v →
      Invariant v ∧ v.store.budget.limit = limit := by
    rintro u e v ⟨hu, hlimit⟩ hnext
    exact ⟨invariant_next hu hnext, (limit_next hu hnext).trans hlimit⟩
  exact Machine.run_preserves hstep ⟨invariant_initial limit, rfl⟩ hrun

end World

/-- In every run of any number of calls under one budget: a returned body is the concatenation
of the chunks and was covered twice by what the call gave back; the budget holds exactly what
the calls in flight have reserved; a call that has ended has given back what it was granted; no
buffer of a stream was written; every chunk is taken or refused for the budget, and a successful
completion returns the body. -/
theorem buffered_bodies (limit : ℕ) (es : List Event) (w : World)
    (hrun : (machine limit).run (machine limit).initial es = some w) :
    (∀ (i : ℕ) (c : Call) (body : List UInt8), w.calls[i]? = some c →
      c.stage = .returned body →
      body = c.chunks.flatten ∧ 2 * body.length ≤ w.store.budget.returned i) ∧
    w.store.budget.retained = reserved w.calls ∧
    0 ≤ w.store.budget.retained ∧ w.store.budget.retained ≤ limit ∧
    (∀ (i : ℕ) (c : Call), w.calls[i]? = some c → c.stage.ended = true →
      w.store.budget.returned i = w.store.budget.granted i) ∧
    (∀ (i : ℕ) (c : Call), w.calls[i]? = some c → c.stage.ended = false →
      w.store.budget.granted i = c.vars.retained ∧ w.store.budget.returned i = 0) ∧
    ((∀ c ∈ w.calls, c.stage.ended = true) → w.store.budget.retained = 0) ∧
    (∀ a bytes, (a, bytes) ∈ w.supplied →
      a ∉ w.store.heap.written ∧ w.store.heap.bytes a = bytes) ∧
    (∀ (i : ℕ) (c : Call) (value : View), w.calls[i]? = some c → c.stage = .reading →
      w.Lawful value →
      ∃ w' c', w.next (.act i (.chunk value)) = some w' ∧ w'.calls[i]? = some c' ∧
        c'.chunks = c.chunks ++ [w.store.heap.read value] ∧
        (c'.stage = .reading ∨ c'.stage = .closing .bufferLimit)) ∧
    (∀ (i : ℕ) (c : Call), w.calls[i]? = some c → c.stage = .completing →
      2 * c.chunks.flatten.length ≤ c.vars.retained ∧
      ∃ w' c', w.next (.act i (.completed true)) = some w' ∧ w'.calls[i]? = some c' ∧
        c'.stage = .returned c.chunks.flatten) := by
  obtain ⟨h, hlimit⟩ := invariant_run hrun
  have hset : ∀ {i : ℕ} {c d : Call}, w.calls[i]? = some c → (w.calls.set i d)[i]? = some d := by
    intro i c d hc
    obtain ⟨hlt, -⟩ := List.getElem?_eq_some_iff.mp hc
    exact List.getElem?_set_self hlt
  refine ⟨?_, h.total, ?_, ?_, ?_, ?_, ?_, ?_, ?_, ?_⟩
  · intro i c body hc hstage
    obtain ⟨hbody, hcovered⟩ := (h.sound i c hc).result body hstage
    obtain ⟨-, hreturned⟩ := h.ledger i c hc
    have hheld : c.held = 0 := by simp [Call.held, hstage, Stage.ended]
    exact ⟨hbody, by omega⟩
  · rw [h.total]
    exact Int.natCast_nonneg _
  · rw [← hlimit]
    exact h.within
  · intro i c hc hended
    obtain ⟨hgranted, hreturned⟩ := h.ledger i c hc
    have hheld : c.held = 0 := by simp [Call.held, hended]
    omega
  · intro i c hc hended
    obtain ⟨hgranted, hreturned⟩ := h.ledger i c hc
    have hheld : c.held = c.vars.retained := by simp [Call.held, hended]
    exact ⟨hgranted, by omega⟩
  · intro hall
    have hheld : ∀ c ∈ w.calls, c.held = 0 := fun c hc => by simp [Call.held, hall c hc]
    rw [h.total, reserved, total_eq_zero Call.held hheld]
    rfl
  · intro a bytes hin
    exact (h.stream _ hin).2
  · intro i c value hc hstage hlawful
    have hvalid : w.store.heap.Valid value := ⟨h.streamed_lt hlawful.streamed, hlawful.fits⟩
    obtain ⟨r, htake, -, hchunks, hnext⟩ := stepped_take (i := i) (h.sound i c hc) hstage
      (fun a ha => h.streamed_lt ha) hvalid hlawful.streamed hlawful.bounded
    refine ⟨{ w with store := r.2, calls := w.calls.set i r.1 }, r.1, ?_, hset hc, hchunks,
      hnext⟩
    simp only [World.next, World.step, World.Allowed, if_pos hlawful, hc, Option.bind_some,
      Call.next, hstage, htake, Option.map_some]
  · intro i c hc hstage
    have hsound := (h.sound i c hc).active (by rw [hstage]; rfl)
    obtain ⟨-, hreturned⟩ := stepped_complete (i := i) (h.sound i c hc) hstage
    refine ⟨hsound.covered,
      { w with store := (c.complete i w.store).2, calls := w.calls.set i (c.complete i w.store).1 },
      (c.complete i w.store).1, ?_, hset hc, hreturned⟩
    simp only [World.next, World.step, World.Allowed, if_true, hc, Option.bind_some, Call.next,
      hstage, Option.map_some]

def sharedRun : List Event :=
  [.supply [1, 2, 3], .supply [4, 5], .start, .start, .act 0 .opened, .act 1 .opened,
    .act 0 (.chunk ⟨0, 0, 3⟩), .act 1 (.chunk ⟨0, 1, 2⟩), .act 0 (.chunk ⟨1, 0, 2⟩),
    .act 1 (.chunk ⟨1, 0, 2⟩), .act 0 .done, .act 1 .closed, .act 0 (.completed true),
    .act 1 (.completed false)]

theorem buffered_bodies_shared :
    ∃ w, (machine 18).run (machine 18).initial sharedRun = some w ∧
      w.calls.map Call.stage = [.returned [1, 2, 3, 4, 5], .failed .bufferLimit] ∧
      w.store.budget.retained = 0 ∧ w.store.heap.bytes 0 = [1, 2, 3] := by
  have hstages : ((machine 18).run (machine 18).initial sharedRun).map
      (fun w => (w.calls.map Call.stage, w.supplied)) =
        some ([.returned [1, 2, 3, 4, 5], .failed .bufferLimit],
          [(0, [1, 2, 3]), (1, [4, 5])]) := by
    decide +kernel
  obtain ⟨w, hw, heq⟩ := Option.map_eq_some_iff.mp hstages
  obtain ⟨hcalls, hsupplied⟩ := Prod.mk.inj heq
  obtain ⟨-, -, -, -, -, -, hzero, hstream, -, -⟩ := buffered_bodies 18 sharedRun w hw
  refine ⟨w, hw, hcalls, hzero ?_, (hstream 0 [1, 2, 3] (by simp [hsupplied])).2⟩
  intro c hc
  have hstage : c.stage ∈ w.calls.map Call.stage := List.mem_map_of_mem hc
  rw [hcalls] at hstage
  rcases List.mem_pair.mp hstage with h | h
  · rw [h]
    rfl
  · rw [h]
    rfl

end BufferedBody
