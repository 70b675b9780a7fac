import Mathlib.Algebra.Group.Nat.Defs
import Ja3Proxy.SdkErrors
import Ja3Proxy.TransitionRuns

/-! The synchronous client and its worker (`sync/index.ts`, `sync/worker.ts`).
The two threads take turns in any order; a step is one access to the ports or to the shared words.
A posted message is in the port of the other side before the sender goes on, and the worker takes
a message only when no microtask is left. Time is a choice: a deadline may have passed at every
test, and a wait may end at any moment. -/
namespace SyncBridge

open SdkErrors TransitionRuns

/-- `close` and `sessionClose` are still possible after a `close` that failed. -/
inductive Op where
  | close
  | sessionClose
  | other
  deriving DecidableEq, Repr

structure Command where
  id : ℕ
  op : Op
  deriving DecidableEq, Repr

inductive Mark where
  | posted
  | added
  | notified
  deriving DecidableEq, Repr

structure Packet (α : Type) where
  id : ℕ
  reply : Except SdkError α
  mark : Mark

def uncertainError (code : TransportErrors.ErrorCode) : SdkError :=
  .new code { defaultDiagnostics with delivery := .possiblySent } false (some .workerUnavailable)

def unavailable (code : TransportErrors.ErrorCode) : SdkError :=
  localError code (some .workerUnavailable)

/-- The arguments of `#receive`. -/
structure Pending where
  id : ℕ
  dispatched : Bool
  op : Op
  deriving DecidableEq, Repr

/-- Where the main thread is in `#receive`, with the generation it has loaded. -/
inductive Main where
  | idle
  | loading (p : Pending)
  | loaded (p : Pending) (generation : BitVec 32)
  | checked (p : Pending) (generation : BitVec 32)
  | passed (p : Pending) (generation : BitVec 32)
  | waiting (p : Pending) (generation : BitVec 32)
  | asleep (p : Pending)
  deriving DecidableEq, Repr

def Main.pending : Main → Option Pending
  | .idle => none
  | .loading p | .loaded p _ | .checked p _ | .passed p _ | .waiting p _ | .asleep p => some p

inductive After where
  | ready
  | stop
  | fatal
  deriving DecidableEq, Repr

/-- Where the worker is: between messages (`idle`, or `running` while the operation waits for
something), in `reply`, in the microtasks up to `busy = false`, or in `stop`. -/
inductive Worker (α : Type) where
  | starting
  | idle
  | running (c : Command)
  | replying (id : ℕ) (reply : Except SdkError α) (after : After)
  | posted (after : After)
  | added (after : After)
  | clearing
  | storing
  | raising
  | notifying
  | closing
  | stopped
  | dead

/-- `value` and `failed` are the answers of the worker; `lost` is a timeout, a protocol error or a
failure of the worker; `refused` is a call on a closed client. -/
inductive Outcome (α : Type) where
  | value (v : α)
  | failed (e : SdkError)
  | lost (e : SdkError)
  | refused (e : SdkError)

/-- `adds` is the number of `Atomics.add` so far, of which the shared word keeps 32 bits, `flag`
the second word. `workerFailed` records `fatal`, a failed start or the death of the worker,
`posted` the commands sent, `results` what the operations returned in the worker and `log` how
the calls ended. -/
structure State (α : Type) where
  main : Main
  closed : Bool
  closing : Bool
  failure : Option SdkError
  sequence : ℕ
  worker : Worker α
  busy : Bool
  activeId : ℕ
  workerFailed : Bool
  adds : ℕ
  flag : ℕ
  toWorker : List Command
  toMain : List (Packet α)
  posted : ℕ
  results : List (ℕ × α)
  log : List (ℕ × Outcome α)

namespace State

variable {α : Type}

def initial : State α where
  main := .loading ⟨0, false, .other⟩
  closed := false
  closing := false
  failure := none
  sequence := 0
  worker := .starting
  busy := false
  activeId := 0
  workerFailed := false
  adds := 0
  flag := 0
  toWorker := []
  toMain := []
  posted := 0
  results := []
  log := []

variable (s : State α)

def generation : BitVec 32 := BitVec.ofNat 32 s.adds

def finish (id : ℕ) (o : Outcome α) : State α := { s with main := .idle, log := s.log ++ [(id, o)] }

/-- `this.#failure = e; this.#release(); throw e` -/
def lose (p : Pending) (e : SdkError) : State α :=
  { s with failure := some e, closed := true }.finish p.id (.lost e)

/-- A packet is in the port. `close` and the constructor release the client as well. -/
def accept (p : Pending) (packet : Packet α) : State α :=
  if packet.id = p.id then
    match packet.reply with
    | .ok v => { s with closed := s.closed || p.op == Op.close }.finish p.id (.value v)
    | .error e =>
      if e.kind = .workerUnavailable ∨ s.flag = 2 then s.lose p e
      else { s with closed := s.closed || !p.dispatched }.finish p.id (.failed e)
  else s.lose p (localError .protocolError none)

def receive (p : Pending) (generation : BitVec 32) : State α :=
  match s.toMain with
  | [] => { s with main := .checked p generation }
  | packet :: rest => { s with toMain := rest }.accept p packet

def checkFailure (p : Pending) (generation : BitVec 32) : State α :=
  if s.failure.isSome ∨ s.flag = 2 then
    s.lose p
      (s.failure.getD (if p.dispatched then uncertainError .unknown else unavailable .unknown))
  else { s with main := .passed p generation }

def checkDeadline (p : Pending) (generation : BitVec 32) (expired : Bool) : State α :=
  if expired then s.lose p (if p.dispatched then uncertainError .timeout else unavailable .timeout)
  else { s with main := .waiting p generation }

/-- `Atomics.wait` returns at once where the word has changed. -/
def wait (p : Pending) (generation : BitVec 32) : State α :=
  if s.generation = generation then { s with main := .asleep p } else { s with main := .loading p }

/-- `#call`, where `cloned` tells whether `postMessage` could clone the value. -/
def call (op : Op) (cloned : Bool) : State α :=
  if s.closed then
    s.finish 0 (.refused (s.failure.getD (localError .cancelled (some .clientClosed))))
  else if s.closing && op == .other then
    s.finish 0 (.refused (localError .cancelled (some .clientClosed)))
  else
    let id := s.sequence + 1
    let s := { s with closing := s.closing || op == Op.close, sequence := id }
    if cloned then
      { s with
        toWorker := s.toWorker ++ [Command.mk id op]
        posted := s.posted + 1
        main := .loading ⟨id, true, op⟩ }
    else s.lose ⟨id, true, op⟩ (unavailable .unknown)

/-- The listeners for `error` and `exit` of the worker, which only run between two calls. -/
def workerGone (exited : Bool) : State α :=
  { s with
    failure := if exited && s.closed then s.failure
      else s.failure.or (some (uncertainError .unknown))
    flag := 2
    adds := s.adds + 1 }

def wake : State α :=
  match s.main with
  | .asleep p => { s with main := .loading p }
  | _ => s

def mark (before after : Mark) : State α :=
  { s with toMain := s.toMain.map fun q => if q.mark = before then { q with mark := after } else q }

def fatal : State α :=
  { s with
    workerFailed := true
    worker := .replying s.activeId (.error (uncertainError .unknown)) .fatal }

def start (r : Except SdkError α) : State α :=
  match r with
  | .ok v => { s with flag := 1, results := s.results ++ [(0, v)], worker := .replying 0 r .ready }
  | .error _ => { s with workerFailed := true, worker := .replying 0 r .stop }

def take (valid : Bool) (c : Command) : State α :=
  if s.busy then s.fatal
  else if valid then { s with busy := true, activeId := c.id, worker := .running c }
  else s.fatal

def complete (c : Command) (r : Except SdkError α) : State α :=
  match r with
  | .ok v =>
    { s with
      results := s.results ++ [(c.id, v)]
      worker := .replying c.id r (if c.op = .close then .stop else .ready) }
  | .error _ => { s with worker := .replying c.id r .ready }

/-- `port.postMessage` in `reply`; where it raises, `fatal` follows, or `stop` in `fatal` itself. -/
def post (id : ℕ) (r : Except SdkError α) (after : After) (cloned : Bool) : State α :=
  if cloned then
    { s with toMain := s.toMain ++ [⟨id, r, .posted⟩], worker := .posted after }
  else if after = .fatal then { s with worker := .storing }
  else s.fatal

end State

inductive Event (α : Type) where
  | call (op : Op) (cloned : Bool)
  | load
  | receive
  | checkFailure
  | checkDeadline (expired : Bool)
  | wait
  | waitEnds
  | workerGone (exited : Bool)
  | start (r : Except SdkError α)
  | take (valid : Bool)
  | complete (r : Except SdkError α)
  | post (cloned : Bool)
  | add
  | notify
  | clear
  | stop
  | fatal
  | die
  | stray (notify : Bool)

section Machine

variable {α : Type}

def mainNext (s : State α) : Event α → Option (State α)
  | .call op cloned => if s.main = .idle then some (s.call op cloned) else none
  | .load =>
    match s.main with
    | .loading p => some { s with main := .loaded p s.generation }
    | _ => none
  | .receive =>
    match s.main with
    | .loaded p g => some (s.receive p g)
    | _ => none
  | .checkFailure =>
    match s.main with
    | .checked p g => some (s.checkFailure p g)
    | _ => none
  | .checkDeadline expired =>
    match s.main with
    | .passed p g => some (s.checkDeadline p g expired)
    | _ => none
  | .wait =>
    match s.main with
    | .waiting p g => some (s.wait p g)
    | _ => none
  | .waitEnds =>
    match s.main with
    | .asleep p => some { s with main := .loading p }
    | _ => none
  | .workerGone exited =>
    match s.main, s.worker with
    | .idle, .dead => some (s.workerGone exited)
    | _, _ => none
  | _ => none

/-- `stray` is an operation that ends after the worker has stopped: its reply goes nowhere. -/
def workerNext (s : State α) : Event α → Option (State α)
  | .start r =>
    match s.worker with
    | .starting => some (s.start r)
    | _ => none
  | .take valid =>
    match s.worker, s.toWorker with
    | .idle, c :: rest => some ({ s with toWorker := rest }.take valid c)
    | .running _, c :: rest => some ({ s with toWorker := rest }.take valid c)
    | _, _ => none
  | .complete r =>
    match s.worker with
    | .running c => some (s.complete c r)
    | _ => none
  | .post cloned =>
    match s.worker with
    | .replying id r after => some (s.post id r after cloned)
    | _ => none
  | .add =>
    match s.worker with
    | .posted after =>
      some { s.mark .posted .added with adds := s.adds + 1, worker := .added after }
    | .raising => some { s with adds := s.adds + 1, worker := .notifying }
    | _ => none
  | .notify =>
    match s.worker with
    | .added .ready => some { (s.mark .added .notified).wake with worker := .clearing }
    | .added _ => some { (s.mark .added .notified).wake with worker := .storing }
    | .notifying => some { s.wake with worker := .closing }
    | _ => none
  | .clear =>
    match s.worker with
    | .clearing => some { s with busy := false, worker := .idle }
    | _ => none
  | .stop =>
    match s.worker with
    | .storing => some { s with flag := 2, worker := .raising }
    | .closing => some { s with worker := .stopped }
    | _ => none
  | .fatal =>
    match s.worker with
    | .idle | .running _ => some s.fatal
    | _ => none
  | .die => some { s with worker := .dead, workerFailed := true }
  | .stray notify =>
    match s.worker with
    | .stopped => some (if notify then s.wake else { s with adds := s.adds + 1 })
    | _ => none
  | _ => none

def next (s : State α) (e : Event α) : Option (State α) := (mainNext s e).or (workerNext s e)

def machine (α : Type) : Machine (State α) (Event α) := ⟨.initial, next⟩

end Machine

end SyncBridge
