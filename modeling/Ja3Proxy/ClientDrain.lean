import Ja3Proxy.OperationLifetime
import Ja3Proxy.TransitionRuns
import Mathlib.Logic.Function.Basic

/-! A client with its sessions and scoped fetchers while it is closed (`client.ts`, `sessions.ts`,
`fetch.ts`). Each of the three owners has a `Lifetime`; an exchange is registered with the client
only when it gets there. The clock counts microseconds; what the service does is not modelled. -/
namespace ClientDrain

open OperationLifetime TransitionRuns

def MAX_TIMEOUT_MS : ℕ := 2147483647

/-- What an owner registers: an exchange, the opening of a session, or another operation such as
`capabilities` of the client or a cookie command of a session. -/
inductive Op where
  | exchange (x : ℕ)
  | opening (i : ℕ)
  | other (n : ℕ)
  deriving DecidableEq

inductive Origin where
  | client
  | session (i : ℕ)
  | fetcher (f : ℕ)

/-- An exchange call. `refused` is the `client_closed` of an open check at the call, `aborted` the
one that a call gets later, with its time; `ended` is every other end. -/
inductive Stage where
  | idle
  | refused
  | queued (i : ℕ)
  | admission (f : ℕ)
  | opening (f : ℕ)
  | active
  | ended
  | aborted (time : ℕ)
  deriving DecidableEq

def Stage.waiting : Stage → Bool
  | .queued _ | .admission _ | .opening _ => true
  | _ => false

def Stage.live (stage : Stage) : Bool := stage.waiting || stage == .active

inductive Status where
  | absent | opening | opened | failed | failedClosed
  deriving DecidableEq

structure Session where
  status : Status
  managed : Bool
  lifetime : Lifetime Op
  holder : Option Op

/-- `handle` is the lazily opened session of a fetcher with `context: 'session'`. -/
structure Fetcher where
  created : Bool
  stateful : Bool
  lifetime : Lifetime Op
  handle : Option ℕ
  slots : List ℕ

inductive Phase where
  | stopping | sessions | fetchers
  deriving DecidableEq

structure Close where
  started : ℕ
  timeoutMs : ℕ
  drain : Bool
  phase : Phase

def Close.expires (c : Close) : ℕ := c.started + 1000 * c.timeoutMs

/-- `Deadline.remaining` -/
def Close.remaining (c : Close) (now : ℕ) : ℕ :=
  max 1 ((1000 * c.timeoutMs - (now - c.started)) / 1000)

structure State where
  now : ℕ
  client : Lifetime Op
  closing : Option Close
  session : ℕ → Session
  sessions : List ℕ
  fetcher : ℕ → Fetcher
  fetchers : List ℕ
  stage : ℕ → Stage
  calls : List ℕ
  dispatched : List ℕ

def State.initial : State where
  now := 0
  client := .initial
  closing := none
  session := fun _ => ⟨.absent, false, .initial, none⟩
  sessions := []
  fetcher := fun _ => ⟨false, false, .initial, none, []⟩
  fetchers := []
  stage := fun _ => .idle
  calls := []
  dispatched := []

inductive Event where
  | tick (elapsed : ℕ)
  | createSession (i : ℕ) (managed : Bool)
  | opened (i : ℕ)
  | openFailed (i : ℕ)
  | createFetch (f : ℕ) (stateful : Bool)
  | openingDone (f i : ℕ)
  | operate (n : ℕ)
  | operated (n : ℕ)
  | mutate (i n : ℕ)
  | grantMutation (i n : ℕ)
  | mutated (i n : ℕ)
  | call (x : ℕ) (origin : Origin)
  | grant (x : ℕ)
  | admission (x i : ℕ)
  | resume (x : ℕ)
  | dispatch (x : ℕ)
  | handOut (x : ℕ)
  | finish (x : ℕ)
  | unwind (x : ℕ)
  | close (timeoutMs : ℕ) (drain : Bool)
  | sweepClient
  | closeSessions
  | sweepSession (i : ℕ)
  | closeFetchers
  | sweepFetcher (f : ℕ)

namespace State

variable (s : State)

def move (x : ℕ) (stage : Stage) : State := { s with stage := Function.update s.stage x stage }

def putSession (i : ℕ) (session : Session) : State :=
  { s with session := Function.update s.session i session }

def putFetcher (f : ℕ) (fetcher : Fetcher) : State :=
  { s with fetcher := Function.update s.fetcher f fetcher }

def enter (x : ℕ) : State :=
  match s.client.track (.exchange x) (s.closing.any Close.drain) with
  | some client => { s with client := client }.move x .active
  | none => s.move x (.aborted s.now)

/-- The abort loop of an owner with these operations. The deadline of an exchange is the same for
all its owners, and the client forgets an exchange that is aborted. -/
def abort (ops : List Op) : State :=
  { s with
    stage := fun x => if Op.exchange x ∈ ops ∧ (s.stage x).live then .aborted s.now else s.stage x
    client := { s.client with
      operations := s.client.operations.filter fun op =>
        !(ops.contains op && match op with | .exchange _ => true | _ => false) } }

/-- `stream` of a session: the open check, and for a managed session the serial admission. -/
def streamSession (x i : ℕ) (closed : Stage) : State :=
  match (s.session i).lifetime.track (.exchange x) false with
  | none => s.move x closed
  | some lifetime =>
    let entered := s.putSession i { s.session i with lifetime := lifetime }
    if (s.session i).managed then entered.move x (.queued i) else entered.enter x

def call (x : ℕ) : Origin → Option State
  | .client =>
    match s.client.track (.exchange x) false with
    | none => some (s.move x .refused)
    | some client => some ({ s with client := client }.move x .active)
  | .session i =>
    if (s.session i).status = .opened then some (s.streamSession x i .refused) else none
  | .fetcher f =>
    if (s.fetcher f).created then
      if s.client.closed then some (s.move x .refused)
      else
        match (s.fetcher f).lifetime.track (.exchange x) false with
        | none => some (s.move x .refused)
        | some lifetime =>
          some ((s.putFetcher f { s.fetcher f with lifetime := lifetime }).move x (.admission f))
    else none

def openSession (i : ℕ) (managed : Bool) : State :=
  match s.client.track (.opening i) false with
  | some client => { s with client := client }.putSession i ⟨.opening, managed, .initial, none⟩
  | none => s.putSession i ⟨.failedClosed, managed, .initial, none⟩

/-- A fetcher's exchange has its slot: it goes to the client, or it waits for the session, which
the first one opens. -/
def admitted (x f i : ℕ) : Option State :=
  let fetcher := s.fetcher f
  let holding := { fetcher with slots := x :: fetcher.slots }
  if !fetcher.stateful then some ((s.putFetcher f holding).enter x)
  else
    match fetcher.handle with
    | some _ => some ((s.putFetcher f holding).move x (.opening f))
    | none =>
      match fetcher.lifetime.track (.opening i) false with
      | none => some ((s.putFetcher f holding).move x (.aborted s.now))
      | some lifetime =>
        if (s.session i).status = .absent then
          some
            (((s.putFetcher f { holding with lifetime := lifetime, handle := some i }).openSession
            i false).move x (.opening f))
        else none

def opened (i : ℕ) : State :=
  let session := s.session i
  { s with client := s.client.done (.opening i), sessions := i :: s.sessions }.putSession i
    { session with
      status := .opened
      lifetime := if s.client.closed then session.lifetime.stopAccepting else session.lifetime }

def unwind (x : ℕ) : State :=
  { s with
    session := fun i =>
      { s.session i with
        lifetime := (s.session i).lifetime.done (.exchange x)
        holder := if (s.session i).holder = some (.exchange x) then none else (s.session i).holder }
    fetcher := fun f =>
      { s.fetcher f with
        lifetime := (s.fetcher f).lifetime.done (.exchange x)
        slots := (s.fetcher f).slots.filter (· != x) } }

def close (timeoutMs : ℕ) (drain : Bool) : State :=
  { s with
    closing := some ⟨s.now, timeoutMs, drain, .stopping⟩
    session := fun i =>
      if i ∈ s.sessions then { s.session i with lifetime := (s.session i).lifetime.stopAccepting }
      else s.session i
    client := s.client.close (s.now + if drain then 1000 * timeoutMs else 0) }

def closeSessions (c : Close) : State :=
  { s with
    closing := some { c with phase := .sessions }
    session := fun i =>
      if i ∈ s.sessions then
        { s.session i with
          lifetime := (s.session i).lifetime.close
            (s.now + if c.drain then 1000 * c.remaining s.now else 0) }
      else s.session i }

def closeFetchers (c : Close) : State :=
  { s with
    closing := some { c with phase := .fetchers }
    fetcher := fun f =>
      if f ∈ s.fetchers then { s.fetcher f with lifetime := (s.fetcher f).lifetime.close s.now }
      else s.fetcher f }

/-- The permit of a managed session is given back when `stream` returns. -/
def handOut (x : ℕ) : State :=
  { s with session := fun i =>
      { s.session i with
        holder :=
          if (s.session i).holder = some (.exchange x) then none else (s.session i).holder } }

def resume (x f : ℕ) : Option State :=
  (s.fetcher f).handle.bind fun i =>
    match (s.session i).status with
    | .opened => some (s.streamSession x i (.aborted s.now))
    | .failed => some (s.move x .ended)
    | .failedClosed => some (s.move x (.aborted s.now))
    | _ => none

def sweepClient : State :=
  let swept := s.abort s.client.operations
  { swept with client := swept.client.sweep }

def sweepSession (i : ℕ) : State :=
  let session := s.session i
  (s.abort session.lifetime.operations).putSession i
    { session with lifetime := session.lifetime.sweep }

def sweepFetcher (f : ℕ) : State :=
  let fetcher := s.fetcher f
  (s.abort fetcher.lifetime.operations).putFetcher f
    { fetcher with lifetime := fetcher.lifetime.sweep }

end State

def next (s : State) : Event → Option State
  | .tick elapsed => some { s with now := s.now + elapsed }
  | .createSession i managed =>
    if (s.session i).status = .absent then some (s.openSession i managed) else none
  | .opened i => if (s.session i).status = .opening then some (s.opened i) else none
  | .openFailed i =>
    if (s.session i).status = .opening then
      some ({ s with client := s.client.done (.opening i) }.putSession i
        { s.session i with status := .failed })
    else none
  | .createFetch f stateful =>
    if (s.fetcher f).created || s.client.closed then none
    else some ({ s with fetchers := f :: s.fetchers }.putFetcher f
      ⟨true, stateful, .initial, none, []⟩)
  | .openingDone f i =>
    if (s.session i).status = .opening then none
    else some (s.putFetcher f
      { s.fetcher f with lifetime := (s.fetcher f).lifetime.done (.opening i) })
  | .operate n => (s.client.track (.other n) false).map fun client => { s with client := client }
  | .operated n => some { s with client := s.client.done (.other n) }
  | .mutate i n =>
    if (s.session i).status = .opened then
      ((s.session i).lifetime.track (.other n) false).map fun lifetime =>
        s.putSession i { s.session i with lifetime := lifetime }
    else none
  | .grantMutation i n =>
    if (s.session i).holder.isNone && (s.session i).lifetime.operations.contains (.other n) then
      some (s.putSession i { s.session i with holder := some (.other n) })
    else none
  | .mutated i n =>
    some (s.putSession i { s.session i with
      lifetime := (s.session i).lifetime.done (.other n)
      holder := if (s.session i).holder = some (.other n) then none else (s.session i).holder })
  | .call x origin =>
    if s.stage x = .idle then { s with calls := x :: s.calls }.call x origin else none
  | .grant x =>
    match s.stage x with
    | .queued i =>
      if (s.session i).holder.isNone then
        some ((s.putSession i { s.session i with holder := some (.exchange x) }).enter x)
      else none
    | _ => none
  | .admission x i =>
    match s.stage x with
    | .admission f => if (s.fetcher f).slots.length < 16 then s.admitted x f i else none
    | _ => none
  | .resume x =>
    match s.stage x with
    | .opening f => s.resume x f
    | _ => none
  | .dispatch x =>
    if s.stage x = .active ∧ x ∉ s.dispatched then some { s with dispatched := x :: s.dispatched }
    else none
  | .handOut x => if s.stage x = .active then some (s.handOut x) else none
  | .finish x =>
    if (s.stage x).live then
      some ({ s with client := s.client.done (.exchange x) }.move x .ended)
    else none
  | .unwind x => if (s.stage x).live then none else some (s.unwind x)
  | .close timeoutMs drain =>
    if s.closing.isNone ∧ 0 < timeoutMs ∧ timeoutMs ≤ MAX_TIMEOUT_MS then
      some (s.close timeoutMs drain)
    else none
  | .sweepClient => if s.client.due s.now then some s.sweepClient else none
  | .closeSessions =>
    -- with no session to close, an expired deadline still waits for the operations
    s.closing.bind fun c =>
      if c.phase = .stopping ∧ (s.client.stopped ∨ c.expires ≤ s.now ∧ s.sessions ≠ []) then
        some (s.closeSessions c)
      else none
  | .sweepSession i => if (s.session i).lifetime.due s.now then some (s.sweepSession i) else none
  | .closeFetchers =>
    s.closing.bind fun c =>
      if c.phase = .sessions ∧ s.sessions.all fun i => (s.session i).lifetime.stopped then
        some (s.closeFetchers c)
      else none
  | .sweepFetcher f => if (s.fetcher f).lifetime.due s.now then some (s.sweepFetcher f) else none

def machine : Machine State Event := ⟨.initial, next⟩

def Registered (s : State) : Bool := s.calls.all fun x => !(s.stage x).waiting

end ClientDrain
