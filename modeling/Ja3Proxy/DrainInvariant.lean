import Ja3Proxy.ClientDrain

/-! The open checks of a client, its sessions and its fetchers before and after `close`: which
owner is open, who has begun a close, and which exchanges the client has registered. -/
namespace DrainInvariant

open ClientDrain OperationLifetime TransitionRuns

def ClientOk (closing : Option Close) (client : Lifetime Op) : Prop :=
  match closing with
  | none => client.Open
  | some _ => client.closed = true

def SessionOk (closing : Option Close) (listed : Prop) (session : Session) : Prop :=
  match closing with
  | none =>
    session.lifetime.Open ∧ session.status ≠ .failedClosed ∧ (session.status = .opened → listed)
  | some c =>
    (session.status = .opened → session.lifetime.closed = true) ∧
      (session.lifetime.closing ≠ none → c.phase ≠ .stopping)

def FetcherOk (closing : Option Close) (fetcher : Fetcher) : Prop :=
  match closing with
  | none => fetcher.lifetime.Open
  | some c => fetcher.lifetime.closing ≠ none → c.phase ≠ .stopping

structure Invariant (s : State) : Prop where
  client : ClientOk s.closing s.client
  session : ∀ i, SessionOk s.closing (i ∈ s.sessions) (s.session i)
  fetcher : ∀ f, FetcherOk s.closing (s.fetcher f)
  registered : ∀ x, s.stage x = .active → .exchange x ∈ s.client.operations
  called : ∀ x, s.stage x ≠ .idle → x ∈ s.calls
  sent : ∀ x ∈ s.dispatched, s.stage x ≠ .idle ∧ s.stage x ≠ .refused
  calm : s.closing = none → ∀ x time, s.stage x ≠ .aborted time

variable {s v : State} {x i f : ℕ}

theorem Invariant.putSession (h : Invariant s) {session : Session}
    (hok : SessionOk s.closing (i ∈ s.sessions) session) : Invariant (s.putSession i session) := by
  refine ⟨h.client, ?_, h.fetcher, h.registered, h.called, h.sent, h.calm⟩
  intro j
  simp only [State.putSession, Function.update_apply]
  split
  next heq => exact heq ▸ hok
  next => exact h.session j

theorem Invariant.putFetcher (h : Invariant s) {fetcher : Fetcher}
    (hok : FetcherOk s.closing fetcher) : Invariant (s.putFetcher f fetcher) := by
  refine ⟨h.client, h.session, ?_, h.registered, h.called, h.sent, h.calm⟩
  intro g
  simp only [State.putFetcher, Function.update_apply]
  split
  next => exact hok
  next => exact h.fetcher g

/-- The client registers an operation or is done with one. -/
theorem Invariant.withClient (h : Invariant s) (client : Lifetime Op)
    (hclosed : client.closed = s.client.closed) (hclosing : client.closing = s.client.closing)
    (hkept : ∀ x, s.stage x = .active → .exchange x ∈ client.operations) :
    Invariant { s with client := client } := by
  refine ⟨?_, h.session, h.fetcher, hkept, h.called, h.sent, h.calm⟩
  have hclient := h.client
  revert hclient
  unfold ClientOk Lifetime.Open
  rw [hclosed, hclosing]
  exact id

theorem Invariant.move (h : Invariant s) {stage : Stage} (hcalled : x ∈ s.calls)
    (hactive : stage = .active → .exchange x ∈ s.client.operations)
    (hsent : x ∈ s.dispatched → stage ≠ .idle ∧ stage ≠ .refused)
    (hcalm : s.closing = none → ∀ time, stage ≠ .aborted time) : Invariant (s.move x stage) := by
  refine ⟨h.client, h.session, h.fetcher, ?_, ?_, ?_, ?_⟩
  · intro y hy
    simp only [State.move, Function.update_apply] at hy
    split at hy
    next heq => exact heq ▸ hactive hy
    next => exact h.registered y hy
  · intro y hy
    simp only [State.move, Function.update_apply] at hy
    split at hy
    next heq => exact heq ▸ hcalled
    next => exact h.called y hy
  · intro y hy
    simp only [State.move, Function.update_apply]
    split
    next heq => exact hsent (heq ▸ hy)
    next => exact h.sent y hy
  · intro hnone y time
    simp only [State.move, Function.update_apply]
    split
    next => exact hcalm hnone time
    next => exact h.calm hnone y time

theorem Invariant.enter (h : Invariant s) (hcalled : x ∈ s.calls) : Invariant (s.enter x) := by
  unfold State.enter
  split
  next client htrack =>
    obtain rfl := Lifetime.track_some htrack
    have hkept : ∀ y, s.stage y = .active →
        Op.exchange y ∈ s.client.operations ++ [Op.exchange x] :=
      fun y hy => List.mem_append_left _ (h.registered y hy)
    refine (h.withClient (s.client.register (.exchange x)) rfl rfl hkept).move hcalled ?_ ?_ ?_
    · exact fun _ => List.mem_append_right _ List.mem_cons_self
    · exact fun _ => ⟨nofun, nofun⟩
    · exact fun _ _ => nofun
  next htrack =>
    refine h.move hcalled nofun (fun _ => ⟨nofun, nofun⟩) ?_
    intro hnone
    have hopen := h.client
    rw [hnone] at hopen
    exact nomatch (Lifetime.track_open hopen.1 _).symm.trans htrack

theorem SessionOk.lifetime {closing : Option Close} {listed : Prop} {session : Session}
    (h : SessionOk closing listed session) (lifetime : Lifetime Op) (holder : Option Op)
    (hclosed : lifetime.closed = session.lifetime.closed)
    (hclosing : lifetime.closing = session.lifetime.closing) :
    SessionOk closing listed { session with lifetime := lifetime, holder := holder } := by
  revert h
  unfold SessionOk Lifetime.Open
  rw [hclosed, hclosing]
  exact id

theorem FetcherOk.lifetime {closing : Option Close} {fetcher : Fetcher}
    (h : FetcherOk closing fetcher) (lifetime : Lifetime Op) (handle : Option ℕ) (slots : List ℕ)
    (hclosed : lifetime.closed = fetcher.lifetime.closed)
    (hclosing : lifetime.closing = fetcher.lifetime.closing) :
    FetcherOk closing { fetcher with lifetime := lifetime, handle := handle, slots := slots } := by
  revert h
  unfold FetcherOk Lifetime.Open
  rw [hclosed, hclosing]
  exact id

theorem Invariant.streamSession (h : Invariant s) {closed : Stage} (hcalled : x ∈ s.calls)
    (hclosed : closed ≠ .active)
    (hsent : x ∈ s.dispatched → closed ≠ .idle ∧ closed ≠ .refused) :
    Invariant (s.streamSession x i closed) := by
  unfold State.streamSession
  split
  next htrack =>
    refine h.move hcalled (fun hactive => absurd hactive hclosed) hsent ?_
    intro hnone
    have hopen := h.session i
    rw [hnone] at hopen
    exact nomatch (Lifetime.track_open hopen.1.1 _).symm.trans htrack
  next lifetime htrack =>
    obtain rfl := Lifetime.track_some htrack
    have hentered := h.putSession ((h.session i).lifetime
      ((s.session i).lifetime.register (.exchange x)) (s.session i).holder rfl rfl)
    dsimp only
    split
    · exact hentered.move hcalled nofun (fun _ => ⟨nofun, nofun⟩) (fun _ _ => nofun)
    · exact hentered.enter hcalled

theorem Invariant.openSession (h : Invariant s) (i : ℕ) (managed : Bool) :
    Invariant (s.openSession i managed) := by
  have hclient := h.client
  unfold State.openSession
  split
  next client htrack =>
    obtain rfl := Lifetime.track_some htrack
    refine (h.withClient (s.client.register (.opening i)) rfl rfl ?_).putSession ?_
    · exact fun x hx => List.mem_append_left _ (h.registered x hx)
    · cases hc : s.closing with
      | none => exact ⟨⟨rfl, rfl⟩, nofun, nofun⟩
      | some c => exact ⟨nofun, fun hclosing => absurd rfl hclosing⟩
  next htrack =>
    apply h.putSession
    cases hc : s.closing with
    | none =>
      rw [hc] at hclient
      exact nomatch (Lifetime.track_open hclient.1 _).symm.trans htrack
    | some c => exact ⟨nofun, fun hclosing => absurd rfl hclosing⟩

/-- The client is done with something that is not an exchange. -/
theorem Invariant.done (h : Invariant s) (op : Op) (hop : ∀ x, op ≠ .exchange x) :
    Invariant { s with client := s.client.done op } := by
  apply h.withClient (s.client.done op) rfl rfl
  intro x hx
  exact Lifetime.mem_done (h.registered x hx) (hop x).symm

theorem SessionOk.mono {closing : Option Close} {listed listed' : Prop} {session : Session}
    (h : SessionOk closing listed session) (hl : listed → listed') :
    SessionOk closing listed' session := by
  cases closing with
  | none => exact ⟨h.1, h.2.1, fun hopened => hl (h.2.2 hopened)⟩
  | some c => exact h

theorem Invariant.opened (h : Invariant s) (i : ℕ) : Invariant (s.opened i) := by
  have hdone := h.done (.opening i) nofun
  have hlisted :
      Invariant { s with client := s.client.done (.opening i), sessions := i :: s.sessions } :=
    ⟨hdone.client, fun j => (hdone.session j).mono (List.mem_cons_of_mem i), hdone.fetcher,
      hdone.registered, hdone.called, hdone.sent, hdone.calm⟩
  apply hlisted.putSession
  have hsession := h.session i
  have hclient := h.client
  dsimp only
  cases hc : s.closing with
  | none =>
    rw [hc] at hsession hclient
    simpa [SessionOk, hclient.1] using hsession.1
  | some c =>
    rw [hc] at hsession hclient
    have hclosed : s.client.closed = true := hclient
    simpa [SessionOk, hclosed, Lifetime.stopAccepting] using hsession.2

/-- No owner has begun or finished a close: the sessions and fetchers change in their operations,
permits and slots only. -/
theorem Invariant.owners (h : Invariant s) {session : ℕ → Session} {fetcher : ℕ → Fetcher}
    (hs : ∀ i, SessionOk s.closing (i ∈ s.sessions) (session i))
    (hf : ∀ f, FetcherOk s.closing (fetcher f)) :
    Invariant { s with session := session, fetcher := fetcher } :=
  ⟨h.client, hs, hf, h.registered, h.called, h.sent, h.calm⟩

theorem Invariant.unwind (h : Invariant s) (x : ℕ) : Invariant (s.unwind x) :=
  h.owners (fun i => (h.session i).lifetime _ _ rfl rfl)
    (fun f => (h.fetcher f).lifetime _ (s.fetcher f).handle _ rfl rfl)

theorem Invariant.handOut (h : Invariant s) (x : ℕ) : Invariant (s.handOut x) :=
  h.owners (fun i => (h.session i).lifetime (s.session i).lifetime _ rfl rfl) h.fetcher

theorem Invariant.abort (h : Invariant s) (hclosing : s.closing ≠ none) (ops : List Op) :
    Invariant (s.abort ops) := by
  refine ⟨?_, h.session, h.fetcher, ?_, ?_, ?_, ?_⟩
  · have hclient := h.client
    cases hc : s.closing with
    | none => exact absurd hc hclosing
    | some c =>
      rw [hc] at hclient
      simpa [ClientOk, State.abort, hc] using hclient
  · intro x hx
    simp only [State.abort] at hx ⊢
    split at hx
    next => cases hx
    next hnot =>
      have hout : Op.exchange x ∉ ops := fun hmem => hnot ⟨hmem, by simp [Stage.live, hx]⟩
      simp [h.registered x hx, hout]
  · intro x hx
    apply h.called x
    intro hidle
    simp [State.abort, hidle, Stage.live, Stage.waiting] at hx
  · intro x hx
    have hbefore := h.sent x hx
    simp only [State.abort]
    split
    next => exact ⟨nofun, nofun⟩
    next => exact hbefore
  · exact fun hnone => absurd hnone hclosing

theorem Invariant.sweepClient (h : Invariant s) (hclosing : s.closing ≠ none) :
    Invariant s.sweepClient := by
  have habort := h.abort hclosing s.client.operations
  refine ⟨?_, habort.session, habort.fetcher, habort.registered, habort.called, habort.sent,
    habort.calm⟩
  have hclient := habort.client
  cases hc : s.closing with
  | none => exact absurd hc hclosing
  | some c =>
    have hsame : (s.abort s.client.operations).closing = some c := hc
    rw [hsame] at hclient
    simpa [ClientOk, State.sweepClient, Lifetime.sweep, hsame] using hclient

theorem SessionOk.sweep {c : Close} {listed : Prop} {session : Session}
    (h : SessionOk (some c) listed session) :
    SessionOk (some c) listed { session with lifetime := session.lifetime.sweep } := by
  refine ⟨h.1, ?_⟩
  intro hclosing
  apply h.2
  intro hnone
  simp [Lifetime.sweep, hnone] at hclosing

theorem FetcherOk.sweep {c : Close} {fetcher : Fetcher} (h : FetcherOk (some c) fetcher) :
    FetcherOk (some c) { fetcher with lifetime := fetcher.lifetime.sweep } := by
  intro hclosing
  apply h
  intro hnone
  simp [Lifetime.sweep, hnone] at hclosing

theorem Invariant.sweepSession (h : Invariant s) (hclosing : s.closing ≠ none) (i : ℕ) :
    Invariant (s.sweepSession i) := by
  obtain ⟨c, hc⟩ := Option.ne_none_iff_exists'.mp hclosing
  apply (h.abort hclosing _).putSession
  have hsession := h.session i
  rw [hc] at hsession
  rw [show (s.abort (s.session i).lifetime.operations).closing = some c from hc]
  exact hsession.sweep

theorem Invariant.sweepFetcher (h : Invariant s) (hclosing : s.closing ≠ none) (f : ℕ) :
    Invariant (s.sweepFetcher f) := by
  obtain ⟨c, hc⟩ := Option.ne_none_iff_exists'.mp hclosing
  apply (h.abort hclosing _).putFetcher
  have hfetcher := h.fetcher f
  rw [hc] at hfetcher
  rw [show (s.abort (s.fetcher f).lifetime.operations).closing = some c from hc]
  exact hfetcher.sweep

theorem Invariant.close (h : Invariant s) (hnone : s.closing = none) (timeoutMs : ℕ)
    (drain : Bool) :
    Invariant (s.close timeoutMs drain) := by
  have hclient := h.client
  rw [hnone] at hclient
  refine ⟨?_, ?_, ?_, ?_, h.called, h.sent, nofun⟩
  · simp [ClientOk, State.close, Lifetime.close, hclient.2]
  · intro i
    have hsession := h.session i
    rw [hnone] at hsession
    obtain ⟨hopen, -, hlisted⟩ := hsession
    simp only [SessionOk, State.close]
    split
    next => exact ⟨fun _ => rfl, fun hclosing => absurd hopen.2 hclosing⟩
    next hout => exact ⟨fun hopened => absurd (hlisted hopened) hout,
      fun hclosing => absurd hopen.2 hclosing⟩
  · intro f
    have hfetcher := h.fetcher f
    rw [hnone] at hfetcher
    exact fun hclosing => absurd hfetcher.2 hclosing
  · intro x hx
    simpa [State.close, Lifetime.close, hclient.2] using h.registered x hx

theorem close_closed {l : Lifetime Op} (h : l.closed = true) (expires : ℕ) :
    (l.close expires).closed = true := by
  unfold Lifetime.close
  split
  next => exact h
  next => rfl

theorem Invariant.closeSessions (h : Invariant s) {c : Close} (hc : s.closing = some c) :
    Invariant (s.closeSessions c) := by
  have hclient := h.client
  rw [hc] at hclient
  refine ⟨hclient, ?_, fun f _ => nofun, h.registered, h.called, h.sent, nofun⟩
  intro i
  have hsession := h.session i
  rw [hc] at hsession
  refine ⟨?_, fun _ => nofun⟩
  simp only [State.closeSessions]
  split
  next => exact fun hopened => close_closed (hsession.1 hopened) _
  next => exact hsession.1

theorem Invariant.closeFetchers (h : Invariant s) {c : Close} (hc : s.closing = some c) :
    Invariant (s.closeFetchers c) := by
  have hclient := h.client
  rw [hc] at hclient
  refine ⟨hclient, ?_, fun f _ => nofun, h.registered, h.called, h.sent, nofun⟩
  intro i
  have hsession := h.session i
  rw [hc] at hsession
  exact ⟨hsession.1, fun _ => nofun⟩

theorem Invariant.call (h : Invariant s) {origin : Origin} (hcalled : x ∈ s.calls)
    (hunsent : x ∉ s.dispatched) (hv : s.call x origin = some v) : Invariant v := by
  cases origin with
  | client =>
    simp only [State.call] at hv
    split at hv
    next =>
      cases hv
      exact h.move hcalled nofun (fun hx => absurd hx hunsent) (fun _ _ => nofun)
    next client htrack =>
      cases hv
      obtain rfl := Lifetime.track_some htrack
      refine (h.withClient (s.client.register (.exchange x)) rfl rfl ?_).move hcalled ?_
        (fun hx => absurd hx hunsent) (fun _ _ => nofun)
      · exact fun y hy => List.mem_append_left _ (h.registered y hy)
      · exact fun _ => List.mem_append_right _ List.mem_cons_self
  | session i =>
    simp only [State.call] at hv
    split at hv
    next =>
      cases hv
      exact h.streamSession hcalled nofun fun hx => absurd hx hunsent
    next => cases hv
  | fetcher f =>
    simp only [State.call] at hv
    split at hv
    next =>
      split at hv
      next =>
        cases hv
        exact h.move hcalled nofun (fun hx => absurd hx hunsent) (fun _ _ => nofun)
      next =>
        split at hv
        next =>
          cases hv
          exact h.move hcalled nofun (fun hx => absurd hx hunsent) (fun _ _ => nofun)
        next lifetime htrack =>
          cases hv
          obtain rfl := Lifetime.track_some htrack
          have hput := h.putFetcher (f := f) ((h.fetcher f).lifetime
            ((s.fetcher f).lifetime.register (.exchange x)) (s.fetcher f).handle (s.fetcher f).slots
            rfl rfl)
          exact hput.move hcalled nofun (fun hx => absurd hx hunsent) (fun _ _ => nofun)
    next => cases hv

theorem Invariant.admitted (h : Invariant s) (hcalled : x ∈ s.calls)
    (hv : s.admitted x f i = some v) : Invariant v := by
  have hfetcher := h.fetcher f
  have hholding := hfetcher.lifetime (s.fetcher f).lifetime (s.fetcher f).handle
    (x :: (s.fetcher f).slots) rfl rfl
  simp only [State.admitted] at hv
  split at hv
  next =>
    cases hv
    exact (h.putFetcher hholding).enter hcalled
  next =>
    split at hv
    next =>
      cases hv
      exact (h.putFetcher hholding).move hcalled nofun (fun _ => ⟨nofun, nofun⟩) (fun _ _ => nofun)
    next =>
      split at hv
      next htrack =>
        cases hv
        refine (h.putFetcher hholding).move hcalled nofun (fun _ => ⟨nofun, nofun⟩) ?_
        intro hnone
        rw [show s.closing = none from hnone] at hfetcher
        exact nomatch (Lifetime.track_open hfetcher.1 _).symm.trans htrack
      next lifetime htrack =>
        split at hv
        next =>
          cases hv
          obtain rfl := Lifetime.track_some htrack
          have hput :=
            h.putFetcher (f := f) (hfetcher.lifetime ((s.fetcher f).lifetime.register (.opening i))
            (some i) (x :: (s.fetcher f).slots) rfl rfl)
          have hopening := hput.openSession i false
          refine hopening.move ?_ nofun (fun _ => ⟨nofun, nofun⟩) (fun _ _ => nofun)
          unfold State.openSession
          split <;> exact hcalled
        next => cases hv

theorem Invariant.resume (h : Invariant s) (hcalled : x ∈ s.calls) (hv : s.resume x f = some v) :
    Invariant v := by
  obtain ⟨i, -, hi⟩ := Option.bind_eq_some_iff.mp hv
  split at hi
  next =>
    cases hi
    exact h.streamSession hcalled nofun fun _ => ⟨nofun, nofun⟩
  next =>
    cases hi
    exact h.move hcalled nofun (fun _ => ⟨nofun, nofun⟩) (fun _ _ => nofun)
  next hfailed =>
    cases hi
    refine h.move hcalled nofun (fun _ => ⟨nofun, nofun⟩) ?_
    intro hnone
    have hsession := h.session i
    rw [hnone] at hsession
    exact absurd hfailed hsession.2.1
  next => cases hi

/-- An owner that is due has begun a close, so the client has. -/
theorem Invariant.closing_of_due (h : Invariant s)
    (hdue : s.client.due s.now = true ∨ (∃ i, (s.session i).lifetime.due s.now = true) ∨
      ∃ f, (s.fetcher f).lifetime.due s.now = true) : s.closing ≠ none := by
  intro hnone
  have hclient := h.client
  rw [hnone] at hclient
  rcases hdue with hdue | ⟨i, hdue⟩ | ⟨f, hdue⟩
  · exact nomatch (Lifetime.due_open hclient _).symm.trans hdue
  · have hsession := h.session i
    rw [hnone] at hsession
    exact nomatch (Lifetime.due_open hsession.1 _).symm.trans hdue
  · have hfetcher := h.fetcher f
    rw [hnone] at hfetcher
    exact nomatch (Lifetime.due_open hfetcher _).symm.trans hdue

theorem Invariant.called_of_live (h : Invariant s) (hlive : (s.stage x).live = true) :
    x ∈ s.calls := by
  apply h.called
  intro hidle
  rw [hidle] at hlive
  cases hlive

theorem Invariant.finish (h : Invariant s) (hlive : (s.stage x).live = true) :
    Invariant ({ s with client := s.client.done (.exchange x) }.move x .ended) := by
  have hended : Invariant (s.move x .ended) :=
    h.move (h.called_of_live hlive) nofun (fun _ => ⟨nofun, nofun⟩) (fun _ _ => nofun)
  apply hended.withClient (s.client.done (.exchange x)) rfl rfl
  intro y hy
  have hne : y ≠ x := by
    rintro rfl
    simp [State.move] at hy
  have hactive : s.stage y = .active := by
    simpa [State.move, hne] using hy
  exact Lifetime.mem_done (h.registered y hactive) fun heq => hne (Op.exchange.inj heq)

theorem call_invariant (h : Invariant s) {origin : Origin} (hidle : s.stage x = .idle)
    (hv : { s with calls := x :: s.calls }.call x origin = some v) : Invariant v := by
  have hcalling : Invariant { s with calls := x :: s.calls } :=
    ⟨h.client, h.session, h.fetcher, h.registered,
      fun y hy => List.mem_cons_of_mem _ (h.called y hy), h.sent, h.calm⟩
  exact hcalling.call List.mem_cons_self (fun hx => (h.sent x hx).1 hidle) hv

theorem Invariant.putLifetime (h : Invariant s) (i : ℕ) (lifetime : Lifetime Op)
    (holder : Option Op) (hclosed : lifetime.closed = (s.session i).lifetime.closed)
    (hclosing : lifetime.closing = (s.session i).lifetime.closing) :
    Invariant (s.putSession i { s.session i with lifetime := lifetime, holder := holder }) :=
  h.putSession ((h.session i).lifetime lifetime holder hclosed hclosing)

theorem invariant_step {e : Event} (h : Invariant s) (hv : next s e = some v) : Invariant v := by
  cases e with
  | tick elapsed =>
    cases hv
    exact ⟨h.client, h.session, h.fetcher, h.registered, h.called, h.sent, h.calm⟩
  | createSession i managed =>
    simp only [next] at hv
    split at hv <;> cases hv
    exact h.openSession i managed
  | opened i =>
    simp only [next] at hv
    split at hv <;> cases hv
    exact h.opened i
  | openFailed i =>
    simp only [next] at hv
    split at hv <;> cases hv
    apply (h.done (.opening i) nofun).putSession
    have hsession := h.session i
    dsimp only
    cases hc : s.closing with
    | none =>
      rw [hc] at hsession
      exact ⟨hsession.1, nofun, nofun⟩
    | some c =>
      rw [hc] at hsession
      exact ⟨nofun, hsession.2⟩
  | createFetch f stateful =>
    simp only [next] at hv
    split at hv <;> cases hv
    have hlisted : Invariant { s with fetchers := f :: s.fetchers } :=
      ⟨h.client, h.session, h.fetcher, h.registered, h.called, h.sent, h.calm⟩
    apply hlisted.putFetcher
    dsimp only
    cases hc : s.closing with
    | none => exact ⟨rfl, rfl⟩
    | some c => exact fun hclosing => absurd rfl hclosing
  | openingDone f i =>
    simp only [next] at hv
    split at hv <;> cases hv
    exact h.putFetcher ((h.fetcher f).lifetime _ (s.fetcher f).handle (s.fetcher f).slots rfl rfl)
  | operate n =>
    obtain ⟨client, htrack, rfl⟩ := Option.map_eq_some_iff.mp hv
    obtain rfl := Lifetime.track_some htrack
    apply h.withClient (s.client.register (.other n)) rfl rfl
    exact fun x hx => List.mem_append_left _ (h.registered x hx)
  | operated n =>
    cases hv
    exact h.done (.other n) nofun
  | mutate i n =>
    simp only [next] at hv
    split at hv
    next =>
      obtain ⟨lifetime, htrack, rfl⟩ := Option.map_eq_some_iff.mp hv
      obtain rfl := Lifetime.track_some htrack
      exact h.putLifetime i _ (s.session i).holder rfl rfl
    next => cases hv
  | grantMutation i n =>
    simp only [next] at hv
    split at hv <;> cases hv
    exact h.putLifetime i (s.session i).lifetime (some (.other n)) rfl rfl
  | mutated i n =>
    cases hv
    exact h.putLifetime i ((s.session i).lifetime.done (.other n)) _ rfl rfl
  | call x origin =>
    simp only [next] at hv
    split at hv
    next hidle => exact call_invariant h hidle hv
    next => cases hv
  | grant x =>
    simp only [next] at hv
    split at hv
    next i hqueued =>
      split at hv <;> cases hv
      apply (h.putLifetime i (s.session i).lifetime (some (.exchange x)) rfl rfl).enter
      exact h.called_of_live (by rw [hqueued]; rfl)
    next => cases hv
  | admission x i =>
    simp only [next] at hv
    split at hv
    next f hadmission =>
      split at hv
      next => exact h.admitted (h.called_of_live (by rw [hadmission]; rfl)) hv
      next => cases hv
    next => cases hv
  | resume x =>
    simp only [next] at hv
    split at hv
    next f hopening => exact h.resume (h.called_of_live (by rw [hopening]; rfl)) hv
    next => cases hv
  | dispatch x =>
    simp only [next] at hv
    split at hv <;> cases hv
    next hactive =>
      refine ⟨h.client, h.session, h.fetcher, h.registered, h.called, ?_, h.calm⟩
      rintro y (_ | ⟨_, hy⟩)
      · simp [hactive.1]
      · exact h.sent y hy
  | handOut x =>
    simp only [next] at hv
    split at hv <;> cases hv
    exact h.handOut x
  | finish x =>
    simp only [next] at hv
    split at hv <;> cases hv
    next hlive => exact h.finish hlive
  | unwind x =>
    simp only [next] at hv
    split at hv <;> cases hv
    exact h.unwind x
  | close timeoutMs drain =>
    simp only [next] at hv
    split at hv <;> cases hv
    next hopen => exact h.close (Option.isNone_iff_eq_none.mp hopen.1) timeoutMs drain
  | sweepClient =>
    simp only [next] at hv
    split at hv <;> cases hv
    next hdue => exact h.sweepClient (h.closing_of_due (.inl hdue))
  | closeSessions =>
    obtain ⟨c, hc, hc'⟩ := Option.bind_eq_some_iff.mp hv
    split at hc' <;> cases hc'
    exact h.closeSessions hc
  | sweepSession i =>
    simp only [next] at hv
    split at hv <;> cases hv
    next hdue => exact h.sweepSession (h.closing_of_due (.inr (.inl ⟨i, hdue⟩))) i
  | closeFetchers =>
    obtain ⟨c, hc, hc'⟩ := Option.bind_eq_some_iff.mp hv
    split at hc' <;> cases hc'
    exact h.closeFetchers hc
  | sweepFetcher f =>
    simp only [next] at hv
    split at hv <;> cases hv
    next hdue => exact h.sweepFetcher (h.closing_of_due (.inr (.inr ⟨f, hdue⟩))) f

theorem invariant_initial : Invariant .initial := by
  refine ⟨⟨rfl, rfl⟩, ?_, fun _ => ⟨rfl, rfl⟩, nofun, ?_, nofun, nofun⟩
  · exact fun _ => ⟨⟨rfl, rfl⟩, nofun, nofun⟩
  · exact fun _ hx => absurd rfl hx

theorem invariant_run {es : List Event} (hrun : machine.run .initial es = some s) :
    Invariant s := by
  apply Machine.run_preserves _ invariant_initial hrun
  intro u e w h hw
  exact invariant_step h hw

end DrainInvariant
