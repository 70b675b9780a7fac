import Ja3Proxy.DrainInvariant

/-! What `close({ drain: true, timeoutMs })` keeps of its promise. Every later call is refused.
Exchanges that the client knows are left alone until the timer fires. -/
namespace DrainPromise

open ClientDrain DrainInvariant OperationLifetime TransitionRuns

variable {s v : State} {x i f : ℕ}

/-- Every call is refused once `close` has been called. -/
theorem call_closed (h : Invariant s) (hclosing : s.closing ≠ none) {origin : Origin}
    (hv : next s (.call x origin) = some v) :
    v = { s with calls := x :: s.calls }.move x .refused := by
  obtain ⟨c, hc⟩ := Option.ne_none_iff_exists'.mp hclosing
  have hclosed : s.client.closed = true := by
    have hclient := h.client
    rwa [hc] at hclient
  simp only [next] at hv
  split at hv
  case isFalse => cases hv
  cases origin with
  | client =>
    rw [State.call, Lifetime.track_closed hclosed] at hv
    cases hv
    rfl
  | session i =>
    simp only [State.call] at hv
    split at hv
    next hopened =>
      have hsession := h.session i
      rw [hc] at hsession
      rw [State.streamSession, Lifetime.track_closed (hsession.1 hopened)] at hv
      cases hv
      rfl
    next => cases hv
  | fetcher f =>
    simp only [State.call, hclosed] at hv
    split at hv
    next =>
      cases hv
      rfl
    next => cases hv

def Over (s : State) (c : Close) : Prop := c.expires ≤ s.now ∨ ∀ x, s.stage x ≠ .active

structure Drained (s : State) (c : Close) : Prop where
  resting : ∀ x, (s.stage x).waiting = false
  snapshot : ∃ p, s.client.closing = some p ∧ p.expires = c.expires ∧
    (∀ x, s.stage x = .active → .exchange x ∈ p.pending) ∧ (p.swept = true → Over s c)
  later : c.phase ≠ .stopping → Over s c
  aborted : ∀ x time, s.stage x = .aborted time → c.expires ≤ time

structure Calm (s v : State) : Prop where
  closing : v.closing = s.closing
  client : v.client.closing = s.client.closing
  now : s.now ≤ v.now
  stage : ∀ x, v.stage x = s.stage x ∨ v.stage x = .ended ∨ v.stage x = .refused

theorem Calm.keeps (h : Calm s v) {stage : Stage} (hended : stage ≠ .ended)
    (hrefused : stage ≠ .refused) (hx : v.stage x = stage) : s.stage x = stage := by
  rcases h.stage x with hsame | hend | href
  · exact hsame.symm.trans hx
  · exact absurd (hx.symm.trans hend) hended
  · exact absurd (hx.symm.trans href) hrefused

theorem Calm.over (h : Calm s v) {c : Close} (hover : Over s c) : Over v c := by
  rcases hover with hexpired | hquiet
  · exact .inl (Nat.le_trans hexpired h.now)
  · exact .inr fun x hx => hquiet x (h.keeps nofun nofun hx)

theorem Drained.calm {c : Close} (h : Drained s c) (hcalm : Calm s v) : Drained v c := by
  obtain ⟨p, hp, hexpires, hpending, hswept⟩ := h.snapshot
  refine ⟨?_, ?_, ?_, ?_⟩
  · intro x
    rcases hcalm.stage x with hsame | hend | href
    · rw [hsame]
      exact h.resting x
    · rw [hend]
      rfl
    · rw [href]
      rfl
  · refine ⟨p, hcalm.client.trans hp, hexpires, ?_, fun hs => hcalm.over (hswept hs)⟩
    exact fun x hx => hpending x (hcalm.keeps nofun nofun hx)
  · exact fun hphase => hcalm.over (h.later hphase)
  · exact fun x time hx => h.aborted x time (hcalm.keeps nofun nofun hx)

theorem active_of_abort {ops : List Op} (h : (s.abort ops).stage x = .active) :
    s.stage x = .active := by
  simp only [State.abort] at h
  split at h
  next => cases h
  next => exact h

theorem Over.abort {c : Close} (h : Over s c) (ops : List Op) : Over (s.abort ops) c := by
  rcases h with hexpired | hquiet
  · exact .inl hexpired
  · exact .inr fun x hx => hquiet x (active_of_abort hx)

/-- The abort loop of an owner runs when the drain is over. -/
theorem Drained.abort {c : Close} (h : Drained s c) (hover : Over s c) (ops : List Op) :
    Drained (s.abort ops) c := by
  obtain ⟨p, hp, hexpires, hpending, -⟩ := h.snapshot
  refine ⟨?_, ?_, fun _ => hover.abort ops, ?_⟩
  · intro x
    simp only [State.abort]
    split
    next => rfl
    next => exact h.resting x
  · exact ⟨p, hp, hexpires, fun x hx => hpending x (active_of_abort hx), fun _ => hover.abort ops⟩
  · intro x time hx
    simp only [State.abort] at hx
    split at hx
    next hlive =>
      cases hx
      have hrunning : s.stage x = .active := by
        simpa [Stage.live, h.resting x] using hlive.2
      rcases hover with hexpired | hquiet
      · exact hexpired
      · exact absurd hrunning (hquiet x)
    next => exact h.aborted x time hx

theorem Drained.sweepClient {c : Close} (h : Drained s c) (hinv : Invariant s)
    (hdue : s.client.due s.now = true) : Drained s.sweepClient c := by
  obtain ⟨p, hp, hexpires, hpending, -⟩ := h.snapshot
  have hover : Over s c := by
    simp only [Lifetime.due, hp, Option.any_some, Bool.and_eq_true, Bool.or_eq_true] at hdue
    rcases hdue.2 with hexpired | hsettled
    · exact .inl (hexpires ▸ Nat.le_of_ble_eq_true hexpired)
    · right
      intro x hx
      have hkept := Lifetime.not_settled (hpending x hx) (hinv.registered x hx)
      exact Bool.false_ne_true (hkept.symm.trans hsettled)
  have habort := h.abort hover s.client.operations
  obtain ⟨q, hq, hqexpires, hqpending, -⟩ := habort.snapshot
  refine ⟨habort.resting, ?_, habort.later, habort.aborted⟩
  refine ⟨{ q with swept := true }, ?_, hqexpires, hqpending, fun _ => hover.abort _⟩
  simp [State.sweepClient, Lifetime.sweep, hq]

theorem drained_close (h : Invariant s) (hnone : s.closing = none) {timeoutMs : ℕ}
    (hready : Registered s = true) :
    Drained (s.close timeoutMs true) ⟨s.now, timeoutMs, true, .stopping⟩ := by
  have hclient := h.client
  rw [hnone] at hclient
  refine ⟨?_, ?_, fun hphase => absurd rfl hphase, ?_⟩
  · intro x
    by_contra hwaiting
    have hwaits : (s.stage x).waiting = true := (Bool.not_eq_false _).mp hwaiting
    have hx := List.all_eq_true.mp hready x (h.called_of_live (by simp [Stage.live, hwaits]))
    simp [hwaits] at hx
  · refine ⟨⟨s.client.operations, s.now + 1000 * timeoutMs, false⟩, ?_, rfl, h.registered, ?_⟩
    · simp [State.close, Lifetime.close, hclient.2]
    · exact fun hswept => absurd hswept Bool.false_ne_true
  · exact fun x time hx => absurd hx (h.calm hnone x time)

theorem Calm.of_stage (hclosing : v.closing = s.closing)
    (hclient : v.client.closing = s.client.closing)
    (hnow : v.now = s.now) (hstage : v.stage = s.stage) : Calm s v :=
  ⟨hclosing, hclient, hnow ▸ Nat.le_refl _, fun x => .inl (congrFun hstage x)⟩

theorem Calm.of_move {stage : Stage} (hstage : stage = .ended ∨ stage = .refused)
    (hclosing : s.closing = v.closing) (hclient : s.client.closing = v.client.closing)
    (hnow : s.now = v.now) (hsame : s.stage = v.stage) : Calm v (s.move x stage) := by
  refine ⟨hclosing, hclient, hnow ▸ Nat.le_refl _, ?_⟩
  intro y
  simp only [State.move, Function.update_apply]
  split
  next => exact .inr hstage
  next => exact .inl (congrFun hsame y)

theorem calm_openSession (s : State) (i : ℕ) (managed : Bool) :
    Calm s (s.openSession i managed) := by
  unfold State.openSession
  split
  next htrack =>
    obtain rfl := Lifetime.track_some htrack
    exact .of_stage rfl rfl rfl rfl
  next => exact .of_stage rfl rfl rfl rfl

theorem enter_closing (s : State) (x : ℕ) : (s.enter x).closing = s.closing := by
  unfold State.enter
  split <;> rfl

theorem streamSession_closing (s : State) (x i : ℕ) (closed : Stage) :
    (s.streamSession x i closed).closing = s.closing := by
  unfold State.streamSession
  split
  next => rfl
  next =>
    dsimp only
    split
    · rfl
    · exact enter_closing _ x

theorem call_closing {origin : Origin} (hv : s.call x origin = some v) : v.closing = s.closing := by
  cases origin with
  | client =>
    simp only [State.call] at hv
    split at hv <;> cases hv <;> rfl
  | session i =>
    simp only [State.call] at hv
    split at hv <;> cases hv
    exact streamSession_closing s x i .refused
  | fetcher f =>
    simp only [State.call] at hv
    split at hv
    next =>
      split at hv
      next =>
        cases hv
        rfl
      next => split at hv <;> cases hv <;> rfl
    next => cases hv

theorem admitted_closing (hv : s.admitted x f i = some v) : v.closing = s.closing := by
  simp only [State.admitted] at hv
  split at hv
  next =>
    cases hv
    exact enter_closing _ x
  next =>
    split at hv
    next =>
      cases hv
      rfl
    next =>
      split at hv
      next =>
        cases hv
        rfl
      next =>
        split at hv <;> cases hv
        exact (calm_openSession _ i false).closing

theorem resume_closing (hv : s.resume x f = some v) : v.closing = s.closing := by
  obtain ⟨i, -, hi⟩ := Option.bind_eq_some_iff.mp hv
  split at hi <;> cases hi
  · exact streamSession_closing s x i _
  · rfl
  · rfl

def SameCall (c c' : Close) : Prop :=
  c'.started = c.started ∧ c'.timeoutMs = c.timeoutMs ∧ c'.drain = c.drain

theorem closing_step {e : Event} {c : Close} (hc : s.closing = some c) (hv : next s e = some v) :
    ∃ c', v.closing = some c' ∧ SameCall c c' := by
  suffices hsame : v.closing = s.closing ∨
      ∃ phase, v.closing = some { c with phase := phase } by
    rcases hsame with hsame | ⟨phase, hphase⟩
    · exact ⟨c, hsame.trans hc, rfl, rfl, rfl⟩
    · exact ⟨_, hphase, rfl, rfl, rfl⟩
  cases e with
  | tick elapsed => cases hv; exact .inl rfl
  | operated n => cases hv; exact .inl rfl
  | mutated i n => cases hv; exact .inl rfl
  | createSession i managed =>
    simp only [next] at hv
    split at hv <;> cases hv
    exact .inl (calm_openSession s i managed).closing
  | operate n =>
    obtain ⟨client, -, rfl⟩ := Option.map_eq_some_iff.mp hv
    exact .inl rfl
  | mutate i n =>
    simp only [next] at hv
    split at hv
    next =>
      obtain ⟨lifetime, -, rfl⟩ := Option.map_eq_some_iff.mp hv
      exact .inl rfl
    next => cases hv
  | call x origin =>
    simp only [next] at hv
    split at hv
    next =>
      have hsame := call_closing hv
      exact .inl hsame
    next => cases hv
  | grant x =>
    simp only [next] at hv
    split at hv
    next =>
      split at hv <;> cases hv
      exact .inl (enter_closing _ x)
    next => cases hv
  | admission x i =>
    simp only [next] at hv
    split at hv
    next =>
      split at hv
      next => exact .inl (admitted_closing hv)
      next => cases hv
    next => cases hv
  | resume x =>
    simp only [next] at hv
    split at hv
    next => exact .inl (resume_closing hv)
    next => cases hv
  | close timeoutMs drain =>
    simp [next, hc] at hv
  | closeSessions =>
    obtain ⟨d, hd, hd'⟩ := Option.bind_eq_some_iff.mp hv
    obtain rfl := Option.some.inj (hc.symm.trans hd)
    split at hd' <;> cases hd'
    exact .inr ⟨.sessions, rfl⟩
  | closeFetchers =>
    obtain ⟨d, hd, hd'⟩ := Option.bind_eq_some_iff.mp hv
    obtain rfl := Option.some.inj (hc.symm.trans hd)
    split at hd' <;> cases hd'
    exact .inr ⟨.fetchers, rfl⟩
  | _ =>
    simp only [next] at hv
    split at hv <;> cases hv
    exact .inl rfl

/-- The close goes on to another phase. -/
theorem Drained.proceed {c : Close} (h : Drained s c) (hover : Over s c) (phase : Phase)
    (hclient : v.client.closing = s.client.closing) (hnow : v.now = s.now)
    (hstage : v.stage = s.stage) : Drained v { c with phase := phase } := by
  obtain ⟨p, hp, hexpires, hpending, -⟩ := h.snapshot
  have hlater : Over v { c with phase := phase } := by
    rw [Over, hnow, hstage]
    exact hover
  refine ⟨?_, ⟨p, hclient.trans hp, hexpires, ?_, fun _ => hlater⟩, fun _ => hlater, ?_⟩
  · rw [hstage]
    exact h.resting
  · rw [hstage]
    exact hpending
  · rw [hstage]
    exact h.aborted

theorem Drained.closeSessions {c : Close} (h : Drained s c)
    (hready : s.client.stopped = true ∨ c.expires ≤ s.now) :
    Drained (s.closeSessions c) { c with phase := .sessions } := by
  obtain ⟨p, hp, hexpires, hpending, hswept⟩ := h.snapshot
  have hover : Over s c := by
    rcases hready with hstopped | hexpired
    · simp only [Lifetime.stopped, hp, Option.any_some, Bool.and_eq_true] at hstopped
      exact hswept hstopped.1
    · exact .inl hexpired
  exact h.proceed hover .sessions rfl rfl rfl

theorem Drained.closeFetchers {c : Close} (h : Drained s c) (hphase : c.phase = .sessions) :
    Drained (s.closeFetchers c) { c with phase := .fetchers } := by
  have hover : Over s c := by
    apply h.later
    rw [hphase]
    intro hstopping
    cases hstopping
  exact h.proceed hover .fetchers rfl rfl rfl

/-- A session that is swept has been closed, which happens after the snapshot. -/
theorem Drained.sweepSession {c : Close} (h : Drained s c) (hinv : Invariant s)
    (hc : s.closing = some c) {i : ℕ} (hdue : (s.session i).lifetime.due s.now = true) :
    Drained (s.sweepSession i) c := by
  have hsession := hinv.session i
  rw [hc] at hsession
  have hover : Over s c := by
    apply h.later
    apply hsession.2
    intro hnone
    simp [Lifetime.due, hnone] at hdue
  have habort := h.abort hover (s.session i).lifetime.operations
  exact ⟨habort.resting, habort.snapshot, habort.later, habort.aborted⟩

theorem Drained.sweepFetcher {c : Close} (h : Drained s c) (hinv : Invariant s)
    (hc : s.closing = some c) {f : ℕ} (hdue : (s.fetcher f).lifetime.due s.now = true) :
    Drained (s.sweepFetcher f) c := by
  have hfetcher := hinv.fetcher f
  rw [hc] at hfetcher
  have hover : Over s c := by
    apply h.later
    apply hfetcher
    intro hnone
    simp [Lifetime.due, hnone] at hdue
  have habort := h.abort hover (s.fetcher f).lifetime.operations
  exact ⟨habort.resting, habort.snapshot, habort.later, habort.aborted⟩

theorem drained_step {e : Event} {c : Close} (hinv : Invariant s) (hc : s.closing = some c)
    (h : Drained s c) (hv : next s e = some v) :
    ∃ c', v.closing = some c' ∧ SameCall c c' ∧ Drained v c' := by
  have hclosing : s.closing ≠ none := hc ▸ Option.some_ne_none c
  suffices hcalm : Calm s v ∨ ∃ c', v.closing = some c' ∧ SameCall c c' ∧ Drained v c' by
    rcases hcalm with hcalm | hdone
    · exact ⟨c, hcalm.closing.trans hc, ⟨rfl, rfl, rfl⟩, h.calm hcalm⟩
    · exact hdone
  cases e with
  | tick elapsed =>
    cases hv
    exact .inl ⟨rfl, rfl, Nat.le_add_right _ _, fun x => .inl rfl⟩
  | createSession i managed =>
    simp only [next] at hv
    split at hv <;> cases hv
    exact .inl (calm_openSession s i managed)
  | opened i =>
    simp only [next] at hv
    split at hv <;> cases hv
    exact .inl (.of_stage rfl rfl rfl rfl)
  | openFailed i =>
    simp only [next] at hv
    split at hv <;> cases hv
    exact .inl (.of_stage rfl rfl rfl rfl)
  | createFetch f stateful =>
    simp only [next] at hv
    split at hv <;> cases hv
    exact .inl (.of_stage rfl rfl rfl rfl)
  | openingDone f i =>
    simp only [next] at hv
    split at hv <;> cases hv
    exact .inl (.of_stage rfl rfl rfl rfl)
  | operate n =>
    obtain ⟨client, htrack, rfl⟩ := Option.map_eq_some_iff.mp hv
    obtain rfl := Lifetime.track_some htrack
    exact .inl (.of_stage rfl rfl rfl rfl)
  | operated n =>
    cases hv
    exact .inl (.of_stage rfl rfl rfl rfl)
  | mutate i n =>
    simp only [next] at hv
    split at hv
    next =>
      obtain ⟨lifetime, htrack, rfl⟩ := Option.map_eq_some_iff.mp hv
      exact .inl (.of_stage rfl rfl rfl rfl)
    next => cases hv
  | grantMutation i n =>
    simp only [next] at hv
    split at hv <;> cases hv
    exact .inl (.of_stage rfl rfl rfl rfl)
  | mutated i n =>
    cases hv
    exact .inl (.of_stage rfl rfl rfl rfl)
  | call x origin =>
    obtain rfl := call_closed hinv hclosing hv
    exact .inl (.of_move (.inr rfl) rfl rfl rfl rfl)
  | grant x =>
    have hresting := h.resting x
    simp only [next] at hv
    split at hv
    next hqueued =>
      rw [hqueued] at hresting
      cases hresting
    next => cases hv
  | admission x i =>
    have hresting := h.resting x
    simp only [next] at hv
    split at hv
    next hadmission =>
      rw [hadmission] at hresting
      cases hresting
    next => cases hv
  | resume x =>
    have hresting := h.resting x
    simp only [next] at hv
    split at hv
    next hopening =>
      rw [hopening] at hresting
      cases hresting
    next => cases hv
  | dispatch x =>
    simp only [next] at hv
    split at hv <;> cases hv
    exact .inl (.of_stage rfl rfl rfl rfl)
  | handOut x =>
    simp only [next] at hv
    split at hv <;> cases hv
    exact .inl (.of_stage rfl rfl rfl rfl)
  | finish x =>
    simp only [next] at hv
    split at hv <;> cases hv
    exact .inl (.of_move (.inl rfl) rfl rfl rfl rfl)
  | unwind x =>
    simp only [next] at hv
    split at hv <;> cases hv
    exact .inl (.of_stage rfl rfl rfl rfl)
  | close timeoutMs drain =>
    simp only [next] at hv
    split at hv <;> cases hv
    next hopen => exact absurd (Option.isNone_iff_eq_none.mp hopen.1) hclosing
  | sweepClient =>
    simp only [next] at hv
    split at hv <;> cases hv
    next hdue => exact .inr ⟨c, hc, ⟨rfl, rfl, rfl⟩, h.sweepClient hinv hdue⟩
  | closeSessions =>
    obtain ⟨d, hd, hd'⟩ := Option.bind_eq_some_iff.mp hv
    obtain rfl := Option.some.inj (hc.symm.trans hd)
    split at hd' <;> cases hd'
    next hready =>
      exact .inr ⟨{ c with phase := .sessions }, rfl, ⟨rfl, rfl, rfl⟩,
        h.closeSessions (hready.2.imp_right And.left)⟩
  | sweepSession i =>
    simp only [next] at hv
    split at hv <;> cases hv
    next hdue => exact .inr ⟨c, hc, ⟨rfl, rfl, rfl⟩, h.sweepSession hinv hc hdue⟩
  | closeFetchers =>
    obtain ⟨d, hd, hd'⟩ := Option.bind_eq_some_iff.mp hv
    obtain rfl := Option.some.inj (hc.symm.trans hd)
    split at hd' <;> cases hd'
    next hready =>
      exact .inr ⟨{ c with phase := .fetchers }, rfl, ⟨rfl, rfl, rfl⟩, h.closeFetchers hready.1⟩
  | sweepFetcher f =>
    simp only [next] at hv
    split at hv <;> cases hv
    next hdue => exact .inr ⟨c, hc, ⟨rfl, rfl, rfl⟩, h.sweepFetcher hinv hc hdue⟩

theorem closing_run {es : List Event} {c : Close} (hc : s.closing = some c)
    (hrun : machine.run s es = some v) : v.closing ≠ none := by
  have hkept : ∃ c', v.closing = some c' := by
    apply Machine.run_preserves (P := fun u : State => ∃ c', u.closing = some c') _ ⟨c, hc⟩ hrun
    rintro u e w ⟨d, hd⟩ hw
    obtain ⟨d', hd', -⟩ := closing_step hd hw
    exact ⟨d', hd'⟩
  obtain ⟨c', hc'⟩ := hkept
  exact hc' ▸ Option.some_ne_none c'

theorem drained_run {es : List Event} {c : Close} (hinv : Invariant s) (hc : s.closing = some c)
    (h : Drained s c) (hrun : machine.run s es = some v) :
    ∃ c', SameCall c c' ∧ Drained v c' := by
  have hkept : Invariant v ∧ ∃ c', v.closing = some c' ∧ SameCall c c' ∧ Drained v c' := by
    apply Machine.run_preserves (P := fun u : State => Invariant u ∧
      ∃ c', u.closing = some c' ∧ SameCall c c' ∧ Drained u c') _
      ⟨hinv, c, hc, ⟨rfl, rfl, rfl⟩, h⟩ hrun
    rintro u e w ⟨hu, d, hd, hsame, hdrained⟩ hw
    obtain ⟨d', hd', hsame', hdrained'⟩ := drained_step hu hd hdrained hw
    exact ⟨invariant_step hu hw, d', hd', ⟨hsame'.1.trans hsame.1, hsame'.2.1.trans hsame.2.1,
      hsame'.2.2.trans hsame.2.2⟩, hdrained'⟩
  obtain ⟨-, c', -, hsame, hdrained⟩ := hkept
  exact ⟨c', hsame, hdrained⟩

/-- `close({ drain: true, timeoutMs })` is called in the state `s` of some run, and the run goes on
to `w`. Every later call is refused and never dispatched. If the client knew every accepted
exchange, none of them has been aborted before `timeoutMs` have passed. -/
theorem drain_promise {es fs : List Event} {s u w : State} {timeoutMs : ℕ}
    (hbefore : machine.run .initial es = some s) (hclose : next s (.close timeoutMs true) = some u)
    (hafter : machine.run u fs = some w) :
    (∀ x origin v, next w (.call x origin) = some v →
      v.stage x = .refused ∧ v.dispatched = w.dispatched) ∧
    (∀ x, w.stage x = .refused → x ∉ w.dispatched) ∧
    (Registered s = true → ∀ x time, w.stage x = .aborted time →
      s.now + 1000 * timeoutMs ≤ time) := by
  have hs := invariant_run hbefore
  have hu := invariant_step hs hclose
  have hw : Invariant w := by
    apply Machine.run_preserves _ hu hafter
    intro a e b ha hb
    exact invariant_step ha hb
  have hnone : s.closing = none := by
    by_contra hsome
    obtain ⟨c, hc⟩ := Option.ne_none_iff_exists'.mp hsome
    simp [next, hc] at hclose
  have hstate : u = s.close timeoutMs true := by
    simp only [next] at hclose
    split at hclose <;> cases hclose
    rfl
  subst hstate
  refine ⟨?_, ?_, ?_⟩
  · intro x origin v hv
    obtain rfl := call_closed hw (closing_run rfl hafter) hv
    exact ⟨by simp [State.move], rfl⟩
  · intro x hx hsent
    exact (hw.sent x hsent).2 hx
  · intro hready x time hx
    obtain ⟨c', hsame, hdrained⟩ := drained_run hu rfl (drained_close hs hnone hready) hafter
    have hexpires := hdrained.aborted x time hx
    simpa [Close.expires, hsame.1, hsame.2.1] using hexpires

def closingRun (es fs : List Event) (timeoutMs : ℕ) (check : State → State → Bool) : Bool :=
  (machine.run .initial es).any fun s => (next s (.close timeoutMs true)).any fun u =>
    (machine.run u fs).any fun w => check s w

theorem closingRun_spec (es fs : List Event) (timeoutMs : ℕ) (check : State → State → Bool)
    (h : closingRun es fs timeoutMs check = true) :
    ∃ s u w, machine.run .initial es = some s ∧ next s (.close timeoutMs true) = some u ∧
      machine.run u fs = some w ∧ check s w = true := by
  obtain ⟨s, hs, h⟩ := (Option.any_eq_true _ _).mp h
  obtain ⟨u, hu, h⟩ := (Option.any_eq_true _ _).mp h
  obtain ⟨w, hw, h⟩ := (Option.any_eq_true _ _).mp h
  exact ⟨s, u, w, hs, hu, hw, h⟩

theorem drain_promise_expired :
    ∃ s u w, machine.run .initial [.createSession 0 false, .opened 0, .call 0 .client,
        .call 1 (.session 0), .dispatch 0, .dispatch 1] = some s ∧
      next s (.close 1000 true) = some u ∧
      machine.run u [.finish 0, .call 2 (.session 0), .tick 1000000, .sweepClient] = some w ∧
      w.stage 1 = .aborted 1000000 ∧ s.now + 1000 * 1000 ≤ 1000000 ∧ 2 ∉ w.dispatched := by
  obtain ⟨s, u, w, hs, hu, hw, hcheck⟩ := closingRun_spec [.createSession 0 false,
    .opened 0, .call 0 .client, .call 1 (.session 0), .dispatch 0, .dispatch 1]
    [.finish 0, .call 2 (.session 0), .tick 1000000, .sweepClient] 1000
    (fun s w => Registered s ∧ w.stage 1 = .aborted 1000000 ∧ w.stage 2 = .refused)
    (by decide +kernel)
  obtain ⟨hready, haborted, hrefused⟩ := of_decide_eq_true hcheck
  obtain ⟨-, hunsent, hpromise⟩ := drain_promise hs hu hw
  exact ⟨s, u, w, hs, hu, hw, haborted, hpromise hready 1 _ haborted, hunsent 2 hrefused⟩

/-- The snapshot misses an exchange that waits for its turn in a managed session: it is aborted
as soon as the exchange before it has ended. A fetch that waits for its session is turned away. -/
theorem late_registration_aborted :
    (∃ s u w, machine.run .initial [.createSession 0 true, .opened 0, .call 0 (.session 0),
        .grant 0, .dispatch 0, .call 1 (.session 0)] = some s ∧
      next s (.close 1000 true) = some u ∧
      machine.run u [.handOut 0, .grant 1, .dispatch 1, .tick 5000, .finish 0, .sweepClient] =
        some w ∧
      s.stage 1 = .queued 0 ∧ w.stage 1 = .aborted 5000 ∧ 5000 < s.now + 1000 * 1000) ∧
    ∃ s u w, machine.run .initial [.createFetch 0 true, .call 0 (.fetcher 0), .admission 0 0] =
        some s ∧
      next s (.close 1000 true) = some u ∧
      machine.run u [.tick 5000, .opened 0, .resume 0] = some w ∧
      s.stage 0 = .opening 0 ∧ w.stage 0 = .aborted 5000 ∧ 5000 < s.now + 1000 * 1000 := by
  constructor
  · obtain ⟨s, u, w, hs, hu, hw, hcheck⟩ := closingRun_spec [.createSession 0 true,
      .opened 0, .call 0 (.session 0), .grant 0, .dispatch 0, .call 1 (.session 0)]
      [.handOut 0, .grant 1, .dispatch 1, .tick 5000, .finish 0, .sweepClient] 1000
      (fun s w => s.stage 1 = .queued 0 ∧ w.stage 1 = .aborted 5000 ∧
        5000 < s.now + 1000 * 1000) (by decide +kernel)
    exact ⟨s, u, w, hs, hu, hw, of_decide_eq_true hcheck⟩
  · obtain ⟨s, u, w, hs, hu, hw, hcheck⟩ := closingRun_spec [.createFetch 0 true,
      .call 0 (.fetcher 0), .admission 0 0] [.tick 5000, .opened 0, .resume 0] 1000
      (fun s w => s.stage 0 = .opening 0 ∧ w.stage 0 = .aborted 5000 ∧
        5000 < s.now + 1000 * 1000) (by decide +kernel)
    exact ⟨s, u, w, hs, hu, hw, of_decide_eq_true hcheck⟩

end DrainPromise
