import Ja3Proxy.SyncBridgeInvariant
import Ja3Proxy.SyncBridgeWakeups

/-! How the synchronous client ends: a call that is lost closes it for good, and a worker that
fails between two calls is found out by the next one. -/
namespace SyncBridgeClosing

open SdkErrors SyncBridge SyncBridgeSteps SyncBridgeWakeups SyncBridgeInvariant TransitionRuns

variable {α : Type} {s t : State α}

structure Untouched (s t : State α) : Prop where
  closed : t.closed = s.closed
  posted : t.posted = s.posted
  log : t.log = s.log
  pending : t.main.pending = s.main.pending
  adds : s.adds ≤ t.adds

theorem wake_pending (s : State α) : s.wake.main.pending = s.main.pending := by
  rw [State.wake]
  split
  · rename_i p hmain
    rw [hmain]
    rfl
  · rfl

theorem worker_untouched (hn : WorkerStep s t) : Untouched s t := by
  cases hn with
  | controls hc =>
    refine ⟨hc.closed, hc.posted, hc.log, ?_, hc.adds⟩
    rcases hc.main with hmain | hmain
    · rw [hmain]
    · rw [hmain, wake_pending]
  | _ => exact ⟨rfl, rfl, rfl, rfl, Nat.le_refl _⟩

theorem adds_main (hn : MainStep s t) : s.adds ≤ t.adds := by
  cases hn with
  | hears exited hidle hdead => exact Nat.le_succ _
  | _ => exact Nat.le_refl _

theorem adds_step {e : Event α} (hn : next s e = some t) : s.adds ≤ t.adds := by
  rcases next_cases hn with hmain | hworker
  · exact adds_main (main_step hmain)
  · exact (worker_untouched (worker_step hworker)).adds

theorem closed_main (h : s.closed = true) (hn : MainStep s t) :
    t.closed = true ∧ t.posted = s.posted := by
  cases hn with
  | moves m hp hm => exact ⟨h, rfl⟩
  | loses p e rest hp hq => exact ⟨rfl, rfl⟩
  | returns p v m rest hp hq => exact ⟨by simp [State.finish, h], rfl⟩
  | raises p e m rest hp hq => exact ⟨by simp [State.finish, h], rfl⟩
  | posts op hidle hopen =>
    rw [h] at hopen
    cases hopen
  | clones op e hidle hopen => exact ⟨rfl, rfl⟩
  | refuses e hidle => exact ⟨h, rfl⟩
  | hears exited hidle hdead => exact ⟨h, rfl⟩

theorem closed_step {e : Event α} (h : s.closed = true) (hn : next s e = some t) :
    t.closed = true ∧ t.posted = s.posted := by
  rcases next_cases hn with hmain | hworker
  · exact closed_main h (main_step hmain)
  · have hu := worker_untouched (worker_step hworker)
    exact ⟨hu.closed.trans h, hu.posted⟩

theorem closed_run {es : List (Event α)} (h : s.closed = true)
    (hr : (machine α).run s es = some t) : t.closed = true ∧ t.posted = s.posted := by
  have hstep : ∀ u e v, (u.closed = true ∧ u.posted = s.posted) →
      (machine α).next u e = some v → v.closed = true ∧ v.posted = s.posted := by
    intro u e v hu hn
    obtain ⟨hclosed, hposted⟩ := closed_step hu.1 hn
    exact ⟨hclosed, hposted.trans hu.2⟩
  exact Machine.run_preserves hstep ⟨h, rfl⟩ hr

theorem closed_call {op : Op} {cloned : Bool} (h : s.closed = true)
    (hn : next s (.call op cloned) = some t) : ∃ e, t.log = s.log ++ [(0, .refused e)] := by
  rcases next_cases hn with hmain | hworker
  · simp only [mainNext] at hmain
    split at hmain
    · cases hmain
      refine ⟨s.failure.getD (localError .cancelled (some .clientClosed)), ?_⟩
      simp [State.call, h, State.finish]
    · cases hmain
  · cases hworker

structure Closing (s : State α) : Prop where
  lost : ∀ id e, (id, .lost e) ∈ s.log → s.closed = true
  construct : ∀ p, s.main.pending = some p → p.id = 0 → p.dispatched = false
  failed : ∀ e, (0, .failed e) ∈ s.log → s.closed = true

theorem Closing.of_closed (hclosed : t.closed = true) (hidle : t.main = .idle) : Closing t := by
  constructor
  · exact fun _ _ _ => hclosed
  · intro p hp
    rw [hidle] at hp
    cases hp
  · exact fun _ _ => hclosed

/-- A call ends; the client was open before or stays closed. -/
theorem Closing.finish (h : Closing s) {id : ℕ} {o : Outcome α} (hidle : t.main = .idle)
    (hlog : t.log = s.log ++ [(id, o)]) (hclosed : s.closed = true → t.closed = true)
    (hlost : ∀ e, o ≠ .lost e) (hfailed : ∀ e, (id, o) = (0, .failed e) → t.closed = true) :
    Closing t := by
  constructor
  · intro id' e hx
    rw [hlog] at hx
    rcases mem_finish hx with hold | hnew
    · exact hclosed (h.lost _ _ hold)
    · cases hnew
      exact absurd rfl (hlost e)
  · intro p hp
    rw [hidle] at hp
    cases hp
  · intro e hx
    rw [hlog] at hx
    rcases mem_finish hx with hold | hnew
    · exact hclosed (h.failed _ hold)
    · exact hfailed e hnew.symm

theorem closing_main (h : Closing s) (hn : MainStep s t) : Closing t := by
  cases hn with
  | moves m hp hm =>
    refine ⟨h.lost, ?_, h.failed⟩
    intro p hpending
    exact h.construct p (hp ▸ hpending)
  | loses p e rest hp hq => exact .of_closed rfl rfl
  | returns p v m rest hp hq =>
    refine h.finish rfl rfl ?_ (by simp) (by simp)
    simp +contextual [State.finish]
  | raises p e m rest hp hq =>
    refine h.finish rfl rfl ?_ (by simp) ?_
    · simp +contextual [State.finish]
    · intro e' heq
      have hzero : p.id = 0 := congrArg Prod.fst heq
      simp [State.finish, h.construct p hp hzero]
  | posts op hidle hopen =>
    refine ⟨h.lost, ?_, h.failed⟩
    intro p hp hzero
    cases hp
    cases hzero
  | clones op e hidle hopen => exact .of_closed rfl rfl
  | refuses e hidle => exact h.finish rfl rfl id (by simp) (by simp)
  | hears exited hidle hdead => exact ⟨h.lost, h.construct, h.failed⟩

theorem closing_step {e : Event α} (h : Closing s) (hn : next s e = some t) : Closing t := by
  rcases next_cases hn with hmain | hworker
  · exact closing_main h (main_step hmain)
  · have hu := worker_untouched (worker_step hworker)
    constructor
    · rw [hu.log, hu.closed]
      exact h.lost
    · rw [hu.pending]
      exact h.construct
    · rw [hu.log, hu.closed]
      exact h.failed

structure Invariant (s : State α) : Prop where
  wakeful : s.adds < 2 ^ 32 → Wakeful s
  tokens : Tokens s
  answered : Answered s
  closing : Closing s

theorem invariant_initial : Invariant (State.initial : State α) := by
  constructor
  · exact fun _ => wakeful_loading rfl
  · refine ⟨?_, ?_, ?_, ?_⟩ <;> simp [State.initial, load, holds]
  · refine ⟨?_, ?_, ?_, ?_, ?_, ?_, ?_, ?_, ?_, ?_⟩ <;> simp [State.initial, contents]
  · refine ⟨?_, ?_, ?_⟩
    · simp [State.initial]
    · intro p hp _
      cases hp
      rfl
    · simp [State.initial]

theorem invariant_step {e : Event α} (h : Invariant s) (hn : next s e = some t) :
    Invariant t := by
  refine ⟨?_, tokens_step h.tokens hn, answered_step h.answered hn, closing_step h.closing hn⟩
  intro hw
  have hws : s.adds < 2 ^ 32 := Nat.lt_of_le_of_lt (adds_step hn) hw
  rcases next_cases hn with hmain | hworker
  · exact wakeful_main (h.wakeful hws) hws hmain
  · exact wakeful_worker (h.wakeful hws) hworker

theorem invariant_run {es : List (Event α)} (h : Invariant s)
    (hr : (machine α).run s es = some t) : Invariant t := by
  have hstep : ∀ u e v, Invariant u → (machine α).next u e = some v → Invariant v :=
    fun u e v hu hn => invariant_step hu hn
  exact Machine.run_preserves hstep h hr

/-- No call can return any more: the client is closed, or in a call that cannot be answered. -/
def Hopeless (t : State α) : Prop :=
  t.closed = true ∨ ∃ p, t.main.pending = some p ∧ t.activeId < p.id

structure Doomed (s t : State α) : Prop where
  failed : t.workerFailed = true
  active : t.activeId = s.activeId
  results : t.results = s.results
  posted : t.posted = s.posted ∨ t.posted = s.posted + 1 ∧ Hopeless t

theorem Hopeless.idle (h : Hopeless t) (hidle : t.main = .idle) : t.closed = true := by
  rcases h with hc | ⟨p, hp, _⟩
  · exact hc
  · exact absurd hidle (pending_idle hp)

/-- The main thread posts nothing. -/
theorem Doomed.silent {u : State α} (h : Doomed s t) (hfailed : u.workerFailed = t.workerFailed)
    (hactive : u.activeId = t.activeId) (hresults : u.results = t.results)
    (hposted : u.posted = t.posted) (hhopeless : Hopeless t → Hopeless u) : Doomed s u := by
  refine ⟨hfailed.trans h.failed, hactive.trans h.active, hresults.trans h.results, ?_⟩
  rw [hposted]
  exact h.posted.imp id (And.imp id hhopeless)

theorem doomed_main {u : State α} (ha : Answered t) (h : Doomed s t) (hn : MainStep t u) :
    Doomed s u := by
  -- a packet in the port is for a command that the worker has taken
  have hanswered : ∀ p r m rest, t.main.pending = some p → t.toMain = ⟨p.id, r, m⟩ :: rest →
      Hopeless t → t.closed = true := by
    rintro p r m rest hp hq (hc | ⟨p', hp', hlt⟩)
    · exact hc
    · rw [hp] at hp'
      cases hp'
      have hle := (ha.port (p.id, r) (by simp [contents, hq])).1
      exact absurd hlt (Nat.not_lt.mpr hle)
  cases hn with
  | moves m hp hm =>
    refine h.silent rfl rfl rfl rfl ?_
    rintro (hc | ⟨p, hpending, hlt⟩)
    · exact .inl hc
    · exact .inr ⟨p, hp.trans hpending, hlt⟩
  | loses p e rest hp hq => exact h.silent rfl rfl rfl rfl (fun _ => .inl rfl)
  | returns p v m rest hp hq =>
    refine h.silent rfl rfl rfl rfl (fun hopeless => .inl ?_)
    simp [State.finish, hanswered p _ m rest hp hq hopeless]
  | raises p e m rest hp hq =>
    refine h.silent rfl rfl rfl rfl (fun hopeless => .inl ?_)
    simp [State.finish, hanswered p _ m rest hp hq hopeless]
  | posts op hidle hopen =>
    refine ⟨h.failed, h.active, h.results, .inr ?_⟩
    rcases h.posted with hsame | ⟨_, hopeless⟩
    · refine ⟨by simp [hsame], .inr ⟨_, rfl, ?_⟩⟩
      exact Nat.lt_succ_of_le ha.active
    · rw [hopeless.idle hidle] at hopen
      cases hopen
  | clones op e hidle hopen => exact h.silent rfl rfl rfl rfl (fun _ => .inl rfl)
  | refuses e hidle =>
    exact h.silent rfl rfl rfl rfl (fun hopeless => .inl (hopeless.idle hidle))
  | hears exited hidle hdead =>
    exact h.silent rfl rfl rfl rfl (fun hopeless => .inl (hopeless.idle hidle))

/-- A worker that has failed neither takes a command nor ends an operation. -/
theorem doomed_worker {u : State α} (hk : Tokens t) (h : Doomed s t) (hn : WorkerStep t u) :
    Doomed s u := by
  have hgone := hk.failed h.failed
  have hu := worker_untouched hn
  have hkept : u.workerFailed = true ∧ u.activeId = t.activeId ∧ u.results = t.results := by
    cases hn with
    | starts v hw => simp [hw, gone] at hgone
    | failsToStart e hw => exact ⟨rfl, rfl, rfl⟩
    | takes c rest hnot hq => simp [hnot] at hgone
    | fails queue hq => exact ⟨rfl, rfl, rfl⟩
    | completes c v after hw => simp [hw, gone] at hgone
    | raises c e hw => exact ⟨h.failed, rfl, rfl⟩
    | posts id r after hw => exact ⟨h.failed, rfl, rfl⟩
    | stops id r hw => exact ⟨h.failed, rfl, rfl⟩
    | dies => exact ⟨rfl, rfl, rfl⟩
    | controls hc => exact ⟨hc.workerFailed.trans h.failed, hc.activeId, hc.results⟩
  refine ⟨hkept.1, hkept.2.1.trans h.active, hkept.2.2.trans h.results, ?_⟩
  rw [hu.posted, Hopeless, hu.closed, hu.pending, hkept.2.1]
  exact h.posted

theorem doomed_run {es : List (Event α)} (h : Invariant s) (hf : s.workerFailed = true)
    (hr : (machine α).run s es = some t) : Doomed s t := by
  have hstep : ∀ u e v, (Invariant u ∧ Doomed s u) → (machine α).next u e = some v →
      Invariant v ∧ Doomed s v := by
    rintro u e v ⟨hi, hd⟩ hn
    refine ⟨invariant_step hi hn, ?_⟩
    rcases next_cases hn with hmain | hworker
    · exact doomed_main hi.answered hd (main_step hmain)
    · exact doomed_worker hi.tokens hd (worker_step hworker)
  exact (Machine.run_preserves hstep ⟨h, hf, rfl, rfl, .inl rfl⟩ hr).2

theorem Doomed.idle (h : Doomed s t) (hone : s.posted < t.posted) (hidle : t.main = .idle) :
    t.closed = true := by
  rcases h.posted with hsame | ⟨_, hopeless⟩
  · omega
  · exact hopeless.idle hidle

/-- A call that returns a value has just read it from a packet with its own number. -/
theorem value_from_own_packet {e : Event α} {id : ℕ} {v : α} (hn : next s e = some t)
    (hlog : t.log = s.log ++ [(id, .value v)]) :
    (∃ p, s.main.pending = some p ∧ p.id = id) ∧ ∃ m rest, s.toMain = ⟨id, .ok v, m⟩ :: rest := by
  have hgrows : t.log ≠ s.log := by simp [hlog]
  have hlast : ∀ x, t.log = s.log ++ [x] → x = (id, .value v) := by
    intro x hx
    simpa [hlog] using hx.symm
  rcases next_cases hn with hmain | hworker
  · cases main_step hmain with
    | moves m hp hm => exact absurd rfl hgrows
    | loses p e rest hp hq => cases hlast _ rfl
    | returns p w m rest hp hq =>
      cases hlast _ rfl
      exact ⟨⟨p, hp, rfl⟩, m, rest, hq⟩
    | raises p e m rest hp hq => cases hlast _ rfl
    | posts op hidle hopen => exact absurd rfl hgrows
    | clones op e hidle hopen => cases hlast _ rfl
    | refuses e hidle => cases hlast _ rfl
    | hears exited hidle hdead => exact absurd rfl hgrows
  · exact absurd (worker_untouched (worker_step hworker)).log hgrows

/-- What the bridge promises in a state `s`, with `t` any later one. A call is `lost` by a timeout,
a protocol error or a failure of the worker; the call 0 is the constructor. -/
structure Contract (s t : State α) : Prop where
  awake : ∀ p, s.main = .asleep p → ∀ q ∈ s.toMain, q.mark ≠ .notified
  own : ∀ e u id v, next s e = some u → u.log = s.log ++ [(id, .value v)] →
    (∃ p, s.main.pending = some p ∧ p.id = id) ∧ ∃ m rest, s.toMain = ⟨id, .ok v, m⟩ :: rest
  value : ∀ id v, (id, .value v) ∈ s.log → (id, v) ∈ s.results
  once : (s.results.map Prod.fst).Nodup
  quiet : s.workerFailed = false → ∀ valid u, next s (.take valid) = some u → s.busy = false
  lost : ∀ id e, (id, .lost e) ∈ s.log → s.closed = true
  construct : ∀ e, (0, .failed e) ∈ s.log → s.closed = true
  closed : s.closed = true → t.closed = true ∧ t.posted = s.posted ∧
    ∀ op cloned u, next t (.call op cloned) = some u → ∃ e, u.log = t.log ++ [(0, .refused e)]
  failed : s.workerFailed = true → t.results = s.results ∧ t.posted ≤ s.posted + 1 ∧
    (∀ id o, (id, o) ∈ t.log → s.sequence < id → ∃ e, o = .lost e) ∧
    (s.posted < t.posted → t.main = .idle → t.closed = true)

theorem sync_bridge {es fs : List (Event α)} (hs : (machine α).run .initial es = some s)
    (ht : (machine α).run s fs = some t) (hw : s.adds < 2 ^ 32) : Contract s t := by
  have hinv : Invariant s := invariant_run invariant_initial hs
  constructor
  · exact (hinv.wakeful hw).asleep
  · exact fun e u id v hn hlog => value_from_own_packet hn hlog
  · exact fun id v hx => hinv.answered.log _ hx
  · exact hinv.answered.once
  · intro hf valid u hn
    rcases next_cases hn with hmain | hworker
    · cases hmain
    · exact busy_of_take hinv.tokens hf hworker
  · exact hinv.closing.lost
  · exact hinv.closing.failed
  · intro hc
    obtain ⟨hclosed, hposted⟩ := closed_run hc ht
    exact ⟨hclosed, hposted, fun op cloned u hn => closed_call hclosed hn⟩
  · intro hf
    have hd : Doomed s t := doomed_run hinv hf ht
    have hle : t.posted ≤ s.posted + 1 := by
      rcases hd.posted with hsame | ⟨hone, _⟩ <;> omega
    refine ⟨hd.results, hle, ?_, hd.idle⟩
    intro id o hx hlt
    apply (invariant_run hinv ht).answered.ended hx
    rw [hd.active]
    exact Nat.lt_of_le_of_lt hinv.answered.active hlt

def lateReply : List (Event ℕ) :=
  [.start (.ok 0), .post true, .add, .notify, .clear, .load, .receive, .call .other true,
    .take true, .load, .receive, .checkFailure, .complete (.ok 7), .post true,
    .checkDeadline true]

theorem sync_bridge_late_reply : ∃ s t : State ℕ,
    (machine ℕ).run .initial lateReply = some s ∧
    (machine ℕ).run s [.add, .notify, .clear, .call .other true] = some t ∧
    s.closed = true ∧ s.toMain.length = 1 ∧ t.posted = 1 ∧ Contract s t := by
  obtain ⟨s, hs⟩ : ∃ s, (machine ℕ).run .initial lateReply = some s := ⟨_, rfl⟩
  obtain ⟨t, ht⟩ : ∃ t, (machine ℕ).run s [.add, .notify, .clear, .call .other true] = some t := by
    cases hs
    exact ⟨_, rfl⟩
  have hw : s.adds < 2 ^ 32 := by
    cases hs
    decide
  refine ⟨s, t, hs, ht, ?_, ?_, ?_, sync_bridge hs ht hw⟩
  · cases hs
    rfl
  · cases hs
    rfl
  · cases hs
    cases ht
    rfl

def deadWorker : List (Event ℕ) :=
  [.start (.ok 0), .post true, .add, .notify, .clear, .load, .receive, .die, .workerGone true]

/-- The client has heard of it, but is still open, and the next call posts its command. -/
theorem failure_between_calls : ∃ s u : State ℕ,
    (machine ℕ).run .initial deadWorker = some s ∧ s.main = .idle ∧ s.workerFailed = true ∧
    s.failure.isSome = true ∧ s.closed = false ∧
    next s (.call .other true) = some u ∧ u.posted = s.posted + 1 :=
  ⟨_, _, rfl, rfl, rfl, rfl, rfl, rfl, rfl⟩

end SyncBridgeClosing
