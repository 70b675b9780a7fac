import Ja3Proxy.SdkErrors
import Ja3Proxy.TransitionRuns

/-! The outcome of one `executeStream` (`client.ts`) and what it holds while it runs.
A step is the code between two points where something else can run: an `await`, or a callback of
the caller (the observers, `serviceHeaders`, the transport, the iterator of the body). At every
such point the deadline may be aborted, the upload may fail and the response, once it is there,
may be closed or cancelled. Which error a check raises is left to the events. -/
namespace Exchange

open SdkErrors TransitionRuns

/-- `thrown` is an exception on its way to the outer handler, `none` where it is not an error of
the SDK; `returned` and `rejected` are the ends of `executeStream`. -/
inductive Stage where
  | validating
  | observing
  | capabilities
  | admitting
  | preparing
  | hooked
  | headers
  | transporting
  | readingError
  | opening
  | rejecting (e : SdkError)
  | announcing
  | thrown (e : Option SdkError)
  | returned
  | rejected (e : SdkError)
  deriving DecidableEq, Repr

inductive Permit where
  | idle
  | pending
  | granted
  | refused (e : SdkError)
  deriving DecidableEq, Repr

inductive Body where
  | absent
  | readable
  | errored
  | closed
  deriving DecidableEq, Repr

/-- Where the `pull` of the body is. `delivering` is in the callback for the chunk, `ending` waits
for the end after a last frame, `closing` has called `finish()` and not yet `close()`. -/
inductive Pull where
  | idle
  | reading
  | delivering (payload : List UInt8)
  | ending (last : Except SdkError Diagnostics)
  | closing

structure Observation where
  finished : Bool := false
  finishCalls : ℕ := 0
  deriving DecidableEq, Repr

def Observation.finish (o : Observation) : Observation :=
  if o.finished then o else { finished := true, finishCalls := o.finishCalls + 1 }

/-- The captured variables. `release` and `releaseReservation` count the calls of the closures
they hold, `done` those of `operation.done`; `terminal` lists the values `terminal.resolve` was
called with, `requests` counts the calls of the transport with `'request'`, and `chunks` is what
was enqueued to the body. -/
structure State where
  stage : Stage
  aborted : Bool
  listening : Bool
  finished : Bool
  failure : Option SdkError
  terminal : List (Except SdkError Diagnostics)
  releaseReservation : Option ℕ
  permit : Permit
  release : Option ℕ
  done : ℕ
  observation : Option Observation
  upload : Option Bool
  reader : Option Bool
  requests : ℕ
  body : Body
  pull : Pull
  chunks : List (List UInt8)

/-- After `lifetime.begin` or `lifetime.track`; the deadline may have been aborted before. -/
def State.initial (aborted : Bool) : State where
  stage := .validating
  aborted := aborted
  listening := true
  finished := false
  failure := none
  terminal := []
  releaseReservation := none
  permit := .idle
  release := none
  done := 0
  observation := none
  upload := none
  reader := none
  requests := 0
  body := .absent
  pull := .idle
  chunks := []

def Body.error : Body → Body
  | .readable => .errored
  | body => body

def failureOf : Except SdkError Diagnostics → Option SdkError
  | .error e => some e
  | .ok _ => none

namespace State

variable (s : State)

def finish (outcome : Except SdkError Diagnostics) : State :=
  if s.finished then s
  else
    { s with
      finished := true
      failure := failureOf outcome
      listening := false
      aborted := s.aborted || (failureOf outcome).isSome
      reader := if (failureOf outcome).isSome then s.reader.map fun _ => true else s.reader
      body := if (failureOf outcome).isSome then s.body.error else s.body
      upload := s.upload.map fun _ => true
      release := s.release.map (· + 1)
      releaseReservation := s.releaseReservation.map (· + 1)
      done := s.done + 1
      observation := s.observation.map Observation.finish
      terminal := s.terminal ++ [outcome] }

/-- The signal of the deadline, for whatever reason; `e` is the error of `onAbort`. -/
def abort (e : SdkError) : State :=
  if s.aborted then s
  else if s.listening then { s with aborted := true }.finish (.error e)
  else { s with aborted := true }

def throw (e : Option SdkError) : State := { s with stage := .thrown e }

/-- The outer handler. `fallback` is what `normalize` makes of an error that is not of the SDK. -/
def handle (e : Option SdkError) (fallback : SdkError) : State :=
  let normalized := s.failure.getD (e.getD fallback)
  { s.finish (.error normalized) with stage := .rejected normalized }

def observed (expired : SdkError) (busy : Option SdkError) : State :=
  if s.finished then
    { s with observation := some (Observation.finish {}) }.throw s.failure
  else if s.aborted then { s with observation := some {} }.throw (some expired)
  else
    match busy with
    | some e => { s with observation := some {} }.throw (some e)
    | none =>
      { s with observation := some {}, releaseReservation := some 0, stage := .capabilities }

def acquire (expired : SdkError) : State :=
  { s with stage := .admitting, permit := if s.aborted then .refused expired else .pending }

/-- `release = await ...; if (finished) { release(); throw failure; }` -/
def admitted : Option State :=
  match s.permit with
  | .granted =>
    if s.finished then some ({ s with release := some 1 }.throw s.failure)
    else some { s with release := some 0, stage := .preparing }
  | .refused e => some (s.throw (some e))
  | _ => none

def unlessAborted (e : Option SdkError) (t : State) : State :=
  if s.aborted then s.throw e else t

def announced : State :=
  if s.finished then { s with body := .errored }.throw s.failure
  else { s with body := .readable, stage := .returned }

def pullFailed (e : Option SdkError) (fallback : SdkError) : State :=
  { s.finish (.error (s.failure.getD (e.getD fallback))) with pull := .idle }

end State

inductive Pulled where
  | data (payload : List UInt8)
  | last (outcome : Except SdkError Diagnostics)
  | raised (e : Option SdkError)

/-- The first five events come from outside. The others are the steps of the code, with the errors
that its checks would raise. -/
inductive Event where
  | abort (e : SdkError)
  | uploadFailed (e : SdkError)
  | close (e : SdkError)
  | cancel (e : SdkError)
  | settlePermit (granted : Option SdkError)
  | raise (e : Option SdkError)
  | handle (fallback : SdkError)
  | validated
  | observed (expired : SdkError) (busy : Option SdkError)
  | capabilities (expired : SdkError)
  | admitted
  | prepared (expired : SdkError)
  | invoked (expired : SdkError)
  | dispatched (expired : SdkError)
  | responded (ok : Bool)
  | errorFrame (e : SdkError)
  | errorEnds
  | metadata
  | announced
  | pull
  | pulled (r : Pulled) (fallback : SdkError)
  | delivered (fallback : SdkError)
  | lastEnds (e : Option (Option SdkError)) (fallback : SdkError)
  | closed (fallback : SdkError)

def Stage.raises : Stage → Bool
  | .validating | .capabilities | .preparing | .headers | .transporting | .readingError | .opening
  | .rejecting _ | .announcing => true
  | _ => false

def Stage.early : Stage → Bool
  | .validating | .observing | .thrown _ => true
  | _ => false

def advance (s : State) : Event → Option State
  | .raise e => if s.stage.raises then some (s.throw e) else none
  | .handle fallback =>
    match s.stage with
    | .thrown e => some (s.handle e fallback)
    | _ => none
  | .validated => if s.stage = .validating then some { s with stage := .observing } else none
  | .observed expired busy => if s.stage = .observing then some (s.observed expired busy) else none
  | .capabilities expired => if s.stage = .capabilities then some (s.acquire expired) else none
  | .admitted => if s.stage = .admitting then s.admitted else none
  | .prepared expired =>
    if s.stage = .preparing then
      some ({ s with upload := some false }.unlessAborted (some expired)
        { s with upload := some false, stage := .hooked })
    else none
  | .invoked expired =>
    if s.stage = .hooked then
      some (s.unlessAborted (s.failure.or (some expired)) { s with stage := .headers })
    else none
  | .dispatched expired =>
    if s.stage = .headers then
      some (s.unlessAborted (s.failure.or (some expired))
        { s with requests := s.requests + 1, stage := .transporting })
    else none
  | .responded ok =>
    if s.stage = .transporting then
      some (if ok then { s with reader := some false, stage := .opening }
        else { s with stage := .readingError })
    else none
  | .errorFrame e => if s.stage = .opening then some { s with stage := .rejecting e } else none
  | .errorEnds =>
    match s.stage with
    | .rejecting e => some (s.throw (some e))
    | _ => none
  | .metadata => if s.stage = .opening then some { s with stage := .announcing } else none
  | .announced => if s.stage = .announcing then some s.announced else none
  | _ => none

/-- The steps of `pull`. An `enqueue` or a `close` of a body that is not readable raises. -/
def stream (s : State) : Event → Option State
  | .pull =>
    match s.pull with
    | .idle =>
      if s.body = .readable then some (if s.finished then s else { s with pull := .reading })
      else none
    | _ => none
  | .pulled r fallback =>
    match s.pull, r with
    | .reading, .data payload => some { s with pull := .delivering payload }
    | .reading, .last outcome => some { s with pull := .ending outcome }
    | .reading, .raised e => some (s.pullFailed e fallback)
    | _, _ => none
  | .delivered fallback =>
    match s.pull with
    | .delivering payload =>
      if s.body = .readable then some { s with chunks := s.chunks ++ [payload], pull := .idle }
      else some (s.pullFailed none fallback)
    | _ => none
  | .lastEnds e fallback =>
    match s.pull, e with
    | .ending _, some e => some (s.pullFailed e fallback)
    | .ending (.error e), none => some (s.pullFailed (some e) fallback)
    | .ending (.ok d), none => some { s.finish (.ok d) with pull := .closing }
    | _, _ => none
  | .closed fallback =>
    match s.pull with
    | .closing =>
      if s.body = .readable then some { s with body := .closed, pull := .idle }
      else some (s.pullFailed none fallback)
    | _ => none
  | _ => none

/-- Who can act from outside: the deadline at any time, the upload once it is there, and the
holder of the response. The promise of `acquire` settles once. -/
def outside (s : State) : Event → Option State
  | .abort e => some (s.abort e)
  | .uploadFailed e => if s.upload.isSome then some (s.finish (.error e)) else none
  | .close e => if s.stage = .returned then some (s.finish (.error e)) else none
  | .cancel e =>
    if s.body = .readable then some ({ s with body := .closed }.finish (.error e)) else none
  | .settlePermit refused =>
    if s.permit = .pending then
      some { s with permit := match refused with | some e => .refused e | none => .granted }
    else none
  | _ => none

def next (s : State) (e : Event) : Option State :=
  (outside s e).or ((advance s e).or (stream s e))

def machine (aborted : Bool) : Machine State Event := ⟨.initial aborted, next⟩

end Exchange
