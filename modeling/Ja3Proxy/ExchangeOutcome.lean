import Ja3Proxy.ExchangeInvariant

/-! The outcome of an exchange is fixed once, and what it held is given back with it: after that
nothing is requested, enqueued or decided any more. -/
namespace ExchangeOutcome

open SdkErrors TransitionRuns Exchange ExchangeInvariant

section Steps

variable {s t : State}

structure Frozen (s t : State) : Prop where
  finished : t.finished = true
  terminal : t.terminal = s.terminal
  requests : t.requests = s.requests
  chunks : t.chunks = s.chunks

theorem Frozen.refl (h : s.finished = true) : Frozen s s := ⟨h, rfl, rfl, rfl⟩

theorem Frozen.trans {u : State} (h : Frozen s t) (k : Frozen t u) : Frozen s u :=
  ⟨k.finished, k.terminal.trans h.terminal, k.requests.trans h.requests, k.chunks.trans h.chunks⟩

theorem frozen_pullFailed (hf : s.finished = true) (e : Option SdkError) (fallback : SdkError) :
    Frozen s (s.pullFailed e fallback) := by
  rw [State.pullFailed, finish_of_finished hf]
  exact ⟨hf, rfl, rfl, rfl⟩

theorem frozen_outside {e : Event} (h : Invariant s) (hf : s.finished = true)
    (hn : outside s e = some t) : Frozen s t := by
  have hoff : s.listening = false := by simp [h.listening, hf]
  cases e with
  | abort e =>
    cases hn
    rw [State.abort]
    split
    · exact .refl hf
    · rw [hoff, if_neg (by simp)]
      exact ⟨hf, rfl, rfl, rfl⟩
  | uploadFailed e =>
    simp only [outside] at hn
    split at hn
    · cases hn
      rw [finish_of_finished hf]
      exact .refl hf
    · cases hn
  | close e =>
    simp only [outside] at hn
    split at hn
    · cases hn
      rw [finish_of_finished hf]
      exact .refl hf
    · cases hn
  | cancel e =>
    simp only [outside] at hn
    split at hn
    · cases hn
      rw [finish_of_finished (s := { s with body := .closed }) hf]
      exact ⟨hf, rfl, rfl, rfl⟩
    · cases hn
  | settlePermit refused =>
    simp only [outside] at hn
    split at hn
    · cases hn
      exact ⟨hf, rfl, rfl, rfl⟩
    · cases hn
  | _ => cases hn

/-- The signal is raised together with every failure, so that the tests before the transport
see it. -/
theorem aborted_of_finished (h : Invariant s) (hf : s.finished = true)
    (hstage : s.stage ≠ .returned) : s.aborted = true := by
  cases hfailure : s.failure with
  | none => exact absurd (h.success hf hfailure) hstage
  | some e => exact h.aborted e hfailure

theorem frozen_advance {e : Event} (h : Invariant s) (hf : s.finished = true)
    (hn : advance s e = some t) : Frozen s t := by
  cases e with
  | raise e =>
    simp only [advance] at hn
    split at hn
    · cases hn
      exact ⟨hf, rfl, rfl, rfl⟩
    · cases hn
  | handle fallback =>
    simp only [advance] at hn
    split at hn
    · cases hn
      rw [State.handle, finish_of_finished hf]
      exact ⟨hf, rfl, rfl, rfl⟩
    · cases hn
  | observed expired busy =>
    simp only [advance, State.observed, hf, if_true] at hn
    split at hn
    · cases hn
      exact ⟨rfl, rfl, rfl, rfl⟩
    · cases hn
  | admitted =>
    simp only [advance, State.admitted, hf, if_true] at hn
    split at hn
    · split at hn
      · cases hn
        exact ⟨rfl, rfl, rfl, rfl⟩
      · cases hn
        exact ⟨hf, rfl, rfl, rfl⟩
      · cases hn
    · cases hn
  | prepared expired =>
    simp only [advance, State.unlessAborted] at hn
    split at hn
    · split at hn <;> cases hn <;> exact ⟨hf, rfl, rfl, rfl⟩
    · cases hn
  | invoked expired =>
    simp only [advance, State.unlessAborted] at hn
    split at hn
    · split at hn <;> cases hn <;> exact ⟨hf, rfl, rfl, rfl⟩
    · cases hn
  | dispatched expired =>
    simp only [advance] at hn
    split at hn
    · rename_i hstage
      have haborted := aborted_of_finished h hf (by simp [hstage])
      rw [State.unlessAborted, if_pos haborted] at hn
      cases hn
      exact ⟨hf, rfl, rfl, rfl⟩
    · cases hn
  | responded ok =>
    simp only [advance] at hn
    split at hn
    · cases ok <;> cases hn <;> exact ⟨hf, rfl, rfl, rfl⟩
    · cases hn
  | announced =>
    simp only [advance, State.announced, hf, if_true] at hn
    split at hn
    · cases hn
      exact ⟨rfl, rfl, rfl, rfl⟩
    · cases hn
  | validated | capabilities _ | errorFrame _ | metadata =>
    simp only [advance] at hn
    split at hn
    · cases hn
      exact ⟨hf, rfl, rfl, rfl⟩
    · cases hn
  | errorEnds =>
    simp only [advance] at hn
    split at hn
    · cases hn
      exact ⟨hf, rfl, rfl, rfl⟩
    · cases hn
  | _ => cases hn

theorem frozen_stream {e : Event} (h : Invariant s) (hf : s.finished = true)
    (hn : stream s e = some t) : Frozen s t := by
  cases e with
  | pull =>
    simp only [stream, hf, if_true] at hn
    split at hn
    · split at hn
      · cases hn
        exact .refl hf
      · cases hn
    · cases hn
  | pulled r fallback =>
    simp only [stream] at hn
    split at hn
    · cases hn
      exact ⟨hf, rfl, rfl, rfl⟩
    · cases hn
      exact ⟨hf, rfl, rfl, rfl⟩
    · cases hn
      exact frozen_pullFailed hf _ fallback
    · cases hn
  | delivered fallback =>
    simp only [stream] at hn
    split at hn
    · rename_i payload hdelivering
      split at hn
      · rename_i hbody
        have := h.closing hbody hf
        simp [hdelivering] at this
      · cases hn
        exact frozen_pullFailed hf none fallback
    · cases hn
  | lastEnds e fallback =>
    simp only [stream] at hn
    split at hn
    · cases hn
      exact frozen_pullFailed hf _ fallback
    · cases hn
      exact frozen_pullFailed hf _ fallback
    · cases hn
      rw [finish_of_finished hf]
      exact ⟨hf, rfl, rfl, rfl⟩
    · cases hn
  | closed fallback =>
    simp only [stream] at hn
    split at hn
    · split at hn
      · cases hn
        exact ⟨hf, rfl, rfl, rfl⟩
      · cases hn
        exact frozen_pullFailed hf none fallback
    · cases hn
  | _ => cases hn

theorem frozen_step {e : Event} (h : Invariant s) (hf : s.finished = true)
    (hn : next s e = some t) : Frozen s t := by
  rcases next_cases hn with ho | ha | hst
  · exact frozen_outside h hf ho
  · exact frozen_advance h hf ha
  · exact frozen_stream h hf hst

end Steps

def Settled (s : State) : Prop :=
  s.finished = true ∧ (s.permit = .granted → s.release = some 1)

section Runs

variable {s t : State}

theorem invariant_run {aborted : Bool} {es : List Event} (h : Invariant s)
    (hr : (machine aborted).run s es = some t) : Invariant t := by
  have hstep : ∀ u e v, Invariant u → (machine aborted).next u e = some v → Invariant v :=
    fun _ _ _ hu hn => invariant_step hu hn
  exact Machine.run_preserves hstep h hr

/-- A permit that was granted while the outcome was fixed is released by the next step of the
function. -/
theorem release_of_finished (h : Invariant s) (hf : s.finished = true)
    (hp : s.permit = .granted) :
    s.release = some 1 ∨ ∃ u, next s .admitted = some u ∧ u.release = some 1 := by
  cases hr : s.release with
  | some k =>
    have := h.release k hr
    simp [this, hf]
  | none =>
    have hstage : s.stage = .admitting := by simpa [hr] using h.granted hp
    refine .inr ⟨{ s with release := some 1 }.throw s.failure, ?_, rfl⟩
    simp [next, outside, advance, hstage, State.admitted, hp, hf]

theorem settled_of_finished (aborted : Bool) (h : Invariant s) (hf : s.finished = true) :
    ∃ es u, (machine aborted).run s es = some u ∧ Settled u := by
  by_cases hp : s.permit = .granted
  · rcases release_of_finished h hf hp with hdone | ⟨u, hu, hreleased⟩
    · exact ⟨[], s, rfl, hf, fun _ => hdone⟩
    · have hfrozen := frozen_step h hf hu
      exact ⟨[.admitted], u, (machine aborted).run_cons_iff.mpr ⟨u, hu, rfl⟩, hfrozen.finished,
        fun _ => hreleased⟩
  · exact ⟨[], s, rfl, hf, fun hgranted => absurd hgranted hp⟩

/-- The expiry of the deadline fixes the outcome of every exchange that has none. -/
theorem abort_finishes (h : Invariant s) (hf : s.finished = false) (ha : s.aborted = false)
    (e : SdkError) :
    ∃ u, next s (.abort e) = some u ∧ u.finished = true ∧ u.terminal = [.error e] := by
  have hon : s.listening = true := by simp [h.listening, hf]
  refine ⟨s.abort e, rfl, ?_, ?_⟩
  · simp [State.abort, ha, hon]
  · simp [State.abort, ha, hon, State.finish, hf, (h.pending hf).1]

/-- An exchange whose deadline was aborted before it began raises the error of the deadline. -/
theorem early_finishes (aborted : Bool) (h : Invariant s) (hf : s.finished = false)
    (ha : s.aborted = true) (e : SdkError) :
    ∃ es u, (machine aborted).run s es = some u ∧ u.finished = true := by
  have hhandled : ∀ v e', v.stage = .thrown e' →
      (machine aborted).run v [.handle e] = some (v.handle e' e) ∧
        (v.handle e' e).finished = true := by
    intro v e' hv
    constructor
    · simp [machine, Machine.run, next, outside, advance, stream, hv]
    · exact finish_finished v _
  have hearly := h.early ha hf
  cases hstage : s.stage with
  | validating =>
    obtain ⟨hrun, hfinished⟩ := hhandled (s.throw none) none rfl
    refine ⟨[.raise none, .handle e], _, ?_, hfinished⟩
    refine (machine aborted).run_cons_iff.mpr ⟨s.throw none, ?_, hrun⟩
    simp [machine, next, outside, advance, hstage, Stage.raises]
  | observing =>
    obtain ⟨hrun, hfinished⟩ := hhandled (s.observed e none) (some e) (by
      simp [State.observed, hf, ha, State.throw])
    refine ⟨[.observed e none, .handle e], _, ?_, hfinished⟩
    refine (machine aborted).run_cons_iff.mpr ⟨s.observed e none, ?_, hrun⟩
    simp [machine, next, outside, advance, hstage]
  | thrown e' =>
    obtain ⟨hrun, hfinished⟩ := hhandled s e' hstage
    exact ⟨[.handle e], _, hrun, hfinished⟩
  | _ => simp [hstage, Stage.early] at hearly

theorem exists_settled (aborted : Bool) (h : Invariant s) :
    ∃ es u, (machine aborted).run s es = some u ∧ Settled u := by
  have hlater : ∀ {es : List Event} {u : State}, (machine aborted).run s es = some u →
      u.finished = true → ∃ es u, (machine aborted).run s es = some u ∧ Settled u := by
    intro es u hu hf
    obtain ⟨fs, v, hv, hsettled⟩ := settled_of_finished aborted (invariant_run h hu) hf
    exact ⟨es ++ fs, v, Machine.run_trans hu hv, hsettled⟩
  have error := localError .cancelled none
  cases hf : s.finished with
  | true => exact hlater (Machine.run_nil _ s) hf
  | false =>
    cases ha : s.aborted with
    | true =>
      obtain ⟨es, u, hu, hfinished⟩ := early_finishes aborted h hf ha error
      exact hlater hu hfinished
    | false =>
      obtain ⟨u, hu, hfinished, _⟩ := abort_finishes h hf ha error
      have hrun : (machine aborted).run s [.abort error] = some u :=
        (machine aborted).run_cons_iff.mpr ⟨u, hu, rfl⟩
      exact hlater hrun hfinished

theorem frozen_run {aborted : Bool} {es : List Event} (h : Invariant s) (hf : s.finished = true)
    (hr : (machine aborted).run s es = some t) : Frozen s t := by
  have hstep : ∀ u e v, Invariant u ∧ Frozen s u → (machine aborted).next u e = some v →
      Invariant v ∧ Frozen s v :=
    fun u e v hu hn => ⟨invariant_step hu.1 hn, hu.2.trans (frozen_step hu.1 hu.2.finished hn)⟩
  exact (Machine.run_preserves hstep ⟨h, .refl hf⟩ hr).2

end Runs

/-- In every state of every exchange: before the outcome nothing has been released and the
terminal promise is pending; afterwards it has one outcome, the reservation, the operation and
the observers have been released or finished once, and so has the permit, at the latest by the
next step of the function that was waiting for it. A rejection is that outcome. Whatever happens
later, the outcome stays, no request is started and nothing is enqueued. And no state is stuck:
an abort leads to an outcome with everything released. -/
theorem exchange_outcome {aborted : Bool} {es fs : List Event} {s t : State}
    (hs : (machine aborted).run (machine aborted).initial es = some s)
    (ht : (machine aborted).run s fs = some t) :
    Accounted s ∧
      (∀ e, s.stage = .rejected e → s.terminal = [.error e]) ∧
      (s.finished = true → s.permit = .granted →
        s.release = some 1 ∨ ∃ u, next s .admitted = some u ∧ u.release = some 1) ∧
      (s.finished = true → Frozen s t) ∧
      (s.finished = false → s.aborted = false → ∀ e, ∃ u, next s (.abort e) = some u ∧
        u.terminal = [.error e]) ∧
      ∃ gs u, (machine aborted).run s gs = some u ∧ Settled u := by
  have h : Invariant s := invariant_run (invariant_initial aborted) hs
  refine ⟨h.toAccounted, ?_, ?_, ?_, ?_, exists_settled aborted h⟩
  · intro e he
    have hfailure := h.rejected e he
    cases hf : s.finished with
    | true =>
      obtain ⟨o, hterminal, ho⟩ := h.outcome hf
      rw [hfailure] at ho
      cases o with
      | error e' =>
        cases ho
        exact hterminal
      | ok d => cases ho
    | false =>
      rw [(h.pending hf).2] at hfailure
      cases hfailure
  · exact fun hf hp => release_of_finished h hf hp
  · exact fun hf => frozen_run h hf ht
  · intro hf ha e
    obtain ⟨u, hu, _, hterminal⟩ := abort_finishes h hf ha e
    exact ⟨u, hu, hterminal⟩

def closedError : SdkError := localError .cancelled (some .clientClosed)

def grantedTooLate : List Event :=
  [.validated, .observed closedError none, .capabilities closedError, .settlePermit none,
    .abort closedError]

theorem exchange_outcome_granted_too_late :
    ∃ s t, (machine false).run (machine false).initial grantedTooLate = some s ∧
      (machine false).run s [.admitted, .handle closedError] = some t ∧
      s.release = none ∧ s.terminal = [.error closedError] ∧ t.release = some 1 ∧
      t.stage = .rejected closedError ∧ Accounted t ∧ Frozen s t := by
  obtain ⟨s, hs⟩ : ∃ s, (machine false).run (machine false).initial grantedTooLate = some s :=
    ⟨_, rfl⟩
  obtain ⟨t, ht⟩ : ∃ t, (machine false).run s [.admitted, .handle closedError] = some t := by
    cases hs
    exact ⟨_, rfl⟩
  have hfrozen := (exchange_outcome hs ht).2.2.2.1
  have haccounted := (exchange_outcome (Machine.run_trans hs ht) (Machine.run_nil _ t)).1
  cases hs
  cases ht
  exact ⟨_, _, rfl, rfl, rfl, rfl, rfl, rfl, haccounted, hfrozen rfl⟩

end ExchangeOutcome
