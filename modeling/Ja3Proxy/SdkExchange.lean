import Ja3Proxy.SdkErrors
import Ja3Proxy.TransitionRuns

/-! One call of the TypeScript SDK (`client.ts`, `sessions.ts`, `fetch.ts`).
The service, the deadline and the caller act through events in any order. The transport
rejects with errors of its own, as `fetch` does, and JSON stands for the bytes it is read
from. Observers and the bytes of a buffered response are not modelled. -/
namespace SdkExchange

open SdkErrors TransitionRuns

inductive Mode where
  | stream | request | fetch
  deriving DecidableEq, Repr

/-- A session call knows the context and the revision it started from. -/
inductive Target where
  | connection
  | context (contextId : String)
  | session (managed : Bool) (contextId : String) (revision : ℕ)
  deriving DecidableEq, Repr

def Target.contextId : Target → Option String
  | .connection => none
  | .context contextId => some contextId
  | .session _ contextId _ => some contextId

/-- The options of a call. `profile` is what `resolveProfile` makes of the profile of the
connection, where the call knows its connection. -/
structure Call where
  mode : Mode
  target : Target
  requestId : String
  attempt : ℕ
  head : Bool
  tlsProfile : String
  profile : Option String
  usedProxy : Bool
  maxResponseBytes : ℕ
  controlLimit : ℕ
  deriving DecidableEq, Repr

inductive Json (α : Type) where
  | malformed
  | refused
  | accepted (value : α)
  deriving DecidableEq, Repr

def Json.value {α : Type} : Json α → Option α
  | .accepted value => some value
  | _ => none

structure Head where
  status : ℕ
  contentType : Option String
  hasBody : Bool
  deriving DecidableEq, Repr

def jsSpace (c : Char) : Bool := c == ' ' || (9 ≤ c.toNat && c.toNat ≤ 13) || c.toNat == 160

/-- `split(';', 1)[0].trim().toLowerCase()` of a header value. -/
def mediaType (value : String) : List Char :=
  ((((value.toList.takeWhile (· != ';')).dropWhile jsSpace).reverse.dropWhile jsSpace).reverse).map
    Char.toLower

def frameContentType : List Char := "application/vnd.ja3proxy".toList

def Head.ok (head : Head) : Bool := 200 ≤ head.status && head.status ≤ 299

def Head.streams (head : Head) : Bool :=
  head.status == 200 && head.contentType.any (mediaType · == frameContentType) && head.hasBody

inductive Frame where
  | metadata (json : Json ResponseMetadata)
  | data (payload : List UInt8)
  | complete (json : Json Diagnostics)
  | error (json : Json WireError)
  deriving DecidableEq, Repr

inductive Thrown where
  | foreign
  | sdk (e : SdkError)
  deriving DecidableEq, Repr

inductive Last where
  | failed (e : SdkError)
  | complete (d : Diagnostics)
  deriving DecidableEq, Repr

/-- What the call waits for. `reading` is a pending read of `buffer` or of the loop of
`fetchResponse`, with the last frame once it is there; `received` is a chunk in its hands. -/
inductive Stage where
  | preparing
  | awaiting
  | readingError
  | opening
  | rejecting (e : SdkError)
  | handing
  | reading (last : Option Last)
  | received
  | constructing
  deriving DecidableEq, Repr

/-- `terminal` is the completion of the exchange: an error in it is the `failure` of the
source. `dispatched` and `reported` record the call of the transport and the diagnostics in
an error of the service. -/
structure State where
  stage : Stage
  diag : Diagnostics
  metadata : Option ResponseMetadata
  responseBytes : ℕ
  terminal : Option (Except SdkError Diagnostics)
  dispatched : Bool
  reported : Option Diagnostics
  outcome : Option (Except SdkError Unit)

def State.initial (c : Call) : State where
  stage := .preparing
  diag := initialDiagnostics c.requestId c.attempt c.tlsProfile
  metadata := none
  responseBytes := 0
  terminal := none
  dispatched := false
  reported := none
  outcome := none

structure Meter where
  totalMs : ℕ
  requestBytes : ℕ
  deriving DecidableEq, Repr

def State.updateLocal (s : State) (m : Meter) : Diagnostics :=
  { s.diag with
    totalMs := m.totalMs
    requestBytes := m.requestBytes
    responseBytes := s.responseBytes }

def State.finish (s : State) (e : SdkError) : State :=
  if s.terminal.isSome then s
  else { s with terminal := some (.error e), diag := e.diagnostics }

def State.failed (s : State) : Bool :=
  match s.terminal with
  | some (.error _) => true
  | _ => false

def State.settle (s : State) (r : Except SdkError Unit) : State := { s with outcome := some r }

/-- An aborted deadline has left its own failure here before anything else is thrown. -/
def Call.normalize (c : Call) (s : State) (m : Meter) (thrown : Thrown) : SdkError :=
  match s.terminal, thrown with
  | some (.error failure), _ => failure
  | _, .sdk e => e
  | _, .foreign =>
    .new (if s.dispatched then .protocolError else .invalidRequest) (s.updateLocal m) c.usedProxy
      (if s.dispatched && s.metadata.isNone then some .serviceUnavailable else none)

/-- The outer handler of `executeStream`. -/
def fail (c : Call) (s : State) (m : Meter) (thrown : Thrown) : State :=
  (s.finish (c.normalize s m thrown)).settle (.error (c.normalize s m thrown))

def protocolError (c : Call) (d : Diagnostics) : SdkError :=
  .new .protocolError d c.usedProxy none

def dispatch (c : Call) (s : State) (queueMs : ℕ) : Option State :=
  if s.stage = .preparing ∧ s.terminal.isNone ∧ opaqueText c.requestId then
    some { s with
      stage := .awaiting
      dispatched := true
      diag := { s.diag with
        queueMs := queueMs
        phase := .upstream
        delivery := .possiblySent
        contextId := c.target.contextId } }
  else none

def respond (c : Call) (s : State) (m : Meter) (head : Head) : Option State :=
  match s.stage with
  | .awaiting =>
    if !head.ok && head.hasBody then some { s with stage := .readingError }
    else if head.ok && head.streams then some { s with stage := .opening }
    else some (fail c s m (.sdk (protocolError c s.diag)))
  | _ => none

def reportedBy (json : Json WireError) : Option Diagnostics := json.value.bind (·.diagnostics)

def errorBody (c : Call) (s : State) (m : Meter) (size : ℕ) (json : Json WireError) :
    Option State :=
  match s.stage with
  | .readingError =>
    if c.controlLimit < size then some (fail c s m (.sdk (protocolError c s.diag)))
    else if json = .malformed then some (fail c s m .foreign)
    else some (fail c { s with reported := reportedBy json } m
      (.sdk (transportError json.value s.diag c.usedProxy false)))
  | _ => none

def metadataOk (c : Call) (value : ResponseMetadata) : Bool :=
  responseMetadataOk value c.requestId c.attempt &&
    (c.target.contextId.all fun contextId => value.diagnostics.contextId == some contextId) &&
    (c.profile.all fun profile => value.diagnostics.tlsProfile == profile)

def firstFrame (c : Call) (s : State) (m : Meter) : Option Frame → State
  | some (.error json) =>
    if json = .malformed then fail c s m .foreign
    else { s with
      stage := .rejecting (transportError json.value s.diag c.usedProxy true)
      reported := reportedBy json }
  | some (.metadata .malformed) => fail c s m .foreign
  | some (.metadata (.accepted value)) =>
    if !metadataOk c value then fail c s m (.sdk (protocolError c s.diag))
    -- the frame was already there when the deadline was aborted
    else if s.terminal.isSome then fail c s m .foreign
    else { s with stage := .handing, metadata := some value, diag := value.diagnostics }
  | _ => fail c s m (.sdk (protocolError c s.diag))

def afterError (c : Call) (s : State) (m : Meter) (e : SdkError) : Option Frame → State
  | none => fail c s m (.sdk e)
  | some _ => fail c s m (.sdk (protocolError c s.diag))

def bodyless (c : Call) (value : ResponseMetadata) : Bool :=
  c.head || [204, 205, 304].contains value.status

def completeOk (c : Call) (s : State) (metadata : ResponseMetadata) (d : Diagnostics) : Bool :=
  diagnosticsOk d (some (c.requestId, c.attempt)) && d.phase == .complete &&
    d.delivery == .responseStarted && d.responseBytes == s.responseBytes &&
    (c.target.contextId.all fun contextId => d.contextId == some contextId) &&
    (metadata.cookieRevision.all fun revision => d.cookieRevision == some revision)

def bodyFrame (c : Call) (s : State) (m : Meter) (metadata : ResponseMetadata) :
    Option Frame → State
  | some (.data payload) =>
    if bodyless c metadata || payload.isEmpty then s.finish (protocolError c (s.updateLocal m))
    else if c.maxResponseBytes < s.responseBytes + payload.length then
      s.finish (.new .bodyTooLarge (s.updateLocal m) c.usedProxy none)
    else { s with
      stage := .received
      responseBytes := s.responseBytes + payload.length
      diag := { s.diag with phase := .body, responseBytes := s.responseBytes + payload.length } }
  | some (.error json) =>
    if json = .malformed then s.finish (c.normalize s m .foreign)
    else if (transportError json.value (s.updateLocal m) c.usedProxy true).delivery =
        .responseStarted then
      { s with stage := .reading (some (.failed
        (transportError json.value (s.updateLocal m) c.usedProxy true))) }
    else s.finish (protocolError c (s.updateLocal m))
  | some (.complete .malformed) => s.finish (c.normalize s m .foreign)
  | some (.complete (.accepted d)) =>
    if completeOk c s metadata d then { s with stage := .reading (some (.complete d)) }
    else s.finish (protocolError c (s.updateLocal m))
  | _ => s.finish (protocolError c (s.updateLocal m))

def afterLast (c : Call) (s : State) (m : Meter) : Last → Option Frame → State
  | .failed e, none => s.finish e
  | .complete d, none => { s with terminal := some (.ok d), diag := d }
  | _, some _ => s.finish (protocolError c (s.updateLocal m))

def frame (c : Call) (s : State) (m : Meter) (f : Option Frame) : Option State :=
  match s.stage, s.metadata with
  | .opening, _ => some (firstFrame c s m f)
  | .rejecting e, _ => some (afterError c s m e f)
  | .reading last, some metadata =>
    if s.terminal.isSome then some s
    else match last with
      | none => some (bodyFrame c s m metadata f)
      | some last => some (afterLast c s m last f)
  | _, _ => none

def reject (c : Call) (s : State) (m : Meter) : Option State :=
  match s.stage with
  | .awaiting | .readingError | .opening | .rejecting _ => some (fail c s m .foreign)
  | .reading _ => some (s.finish (c.normalize s m .foreign))
  | _ => none

structure Info where
  contextId : String
  revision : ℕ
  deriving DecidableEq, Repr

def applyRevision (info : Info) (value : ℕ) (contextId : String) : Except SdkError Info :=
  if info.contextId ≠ contextId then .ok info
  else if value < info.revision then .error (localError .contextConflict none)
  else .ok { info with revision := value }

/-- What `createSession.stream` checks of an exchange, `info` as other calls have left it. -/
def sessionCheck (info : Info) (value : ResponseMetadata) : Target → Except SdkError Info
  | .session managed contextId revision =>
    if value.diagnostics.contextId ≠ some contextId ∨
        managed ∧ ¬ value.cookieRevision.any (revision ≤ ·) then
      .error (localError .protocolError none)
    else match value.cookieRevision with
      | some cookieRevision => applyRevision info cookieRevision contextId
      | none => .ok info
  | _ => .ok info

def handedOut (c : Call) (s : State) (value : ResponseMetadata) : State :=
  match c.mode with
  | .stream => s.settle (.ok ())
  | .request => { s with stage := .reading none }
  | .fetch => { s with stage := if bodyless c value then .reading none else .constructing }

def cancelled (c : Call) (s : State) (m : Meter) : State :=
  s.finish (.new .cancelled (s.updateLocal m) c.usedProxy none)

def handOut (c : Call) (s : State) (m : Meter) (info : Info) : Option State :=
  match s.stage, s.metadata with
  | .handing, some value =>
    match sessionCheck info value c.target with
    | .ok _ => some (handedOut c s value)
    | .error e => some ((cancelled c s m).settle (.error e))
  | _, _ => none

def withdraw (c : Call) (s : State) (m : Meter) : Option State :=
  match s.stage, s.terminal with
  | .handing, some (.error failure) => some (fail c s m (.sdk failure))
  | _, _ => none

def safeError (thrown : Thrown) (fallback : Diagnostics) : SdkError :=
  match thrown with
  | .sdk e => e
  | .foreign => unknownError fallback

def bufferFailure (c : Call) (s : State) (m : Meter) (error : SdkError) : SdkError :=
  .new error.code (s.updateLocal m) c.usedProxy (some error.kind)

/-- The handler of `buffer`: fail the exchange, then throw what it has completed with. -/
def bufferFailed (c : Call) (s : State) (m : Meter) (value : ResponseMetadata) (thrown : Thrown) :
    State :=
  match s.terminal with
  | none =>
    fail c s m (.sdk (bufferFailure c s m (safeError thrown value.diagnostics)))
  | some (.error e) => s.settle (.error e)
  | some (.ok d) => s.settle (.error (safeError thrown d))

inductive Taken where
  | kept | overBudget | outOfMemory
  deriving DecidableEq, Repr

def take (c : Call) (s : State) (m : Meter) (taken : Taken) : Option State :=
  match s.stage, s.metadata with
  | .received, some value =>
    match c.mode, taken with
    | .fetch, _ => some ((cancelled c s m).settle (.error (localError .protocolError none)))
    | _, .kept => some { s with stage := .reading none }
    | _, .overBudget => some (bufferFailed c s m value
        (.sdk (.new .bodyTooLarge value.diagnostics false (some .bufferLimit))))
    | _, .outOfMemory => some (bufferFailed c s m value .foreign)
  | _, _ => none

def finishRead (c : Call) (s : State) (m : Meter) (assembled : Bool) : Option State :=
  match s.stage, s.metadata, s.terminal with
  | .reading _, some value, some (.ok _) =>
    match c.mode with
    | .fetch => some { s with stage := .constructing }
    | _ => some (if assembled then s.settle (.ok ()) else bufferFailed c s m value .foreign)
  | .reading _, some value, some (.error e) =>
    match c.mode with
    | .fetch => some (s.settle (.error e))
    | _ => some (bufferFailed c s m value (.sdk e))
  | _, _, _ => none

/-- `Headers` takes byte strings only. -/
def byteHeaders (headers : List (String × String)) : Bool :=
  headers.all fun (_, value) => value.toList.all fun c => c.toNat ≤ 255

/-- `new Response` -/
def construct (c : Call) (s : State) (m : Meter) : Option State :=
  match s.stage, s.metadata with
  | .constructing, some value =>
    if byteHeaders value.headers then some (s.settle (.ok ()))
    else some ((cancelled c s m).settle (.error (safeError .foreign defaultDiagnostics)))
  | _, _ => none

inductive Act where
  | abort (timedOut : Bool) (kind : Option FailureKind)
  | raise (thrown : Thrown)
  | dispatch (queueMs : ℕ)
  | reject
  | respond (head : Head)
  | errorBody (size : ℕ) (json : Json WireError)
  | frame (f : Option Frame)
  | uploadFailed (tooLarge : Bool)
  | withdraw
  | handOut (info : Info)
  | take (taken : Taken)
  | finishRead (assembled : Bool)
  | construct
  deriving DecidableEq, Repr

structure Event where
  meter : Meter
  act : Act
  deriving DecidableEq, Repr

def abort (c : Call) (s : State) (m : Meter) (timedOut : Bool)
    (kind : Option FailureKind) : State :=
  s.finish (deadlineError timedOut kind (s.updateLocal m) m.totalMs c.usedProxy)

/-- Everything that can go wrong before the transport is called, in any layer. -/
def raise (c : Call) (s : State) (m : Meter) (thrown : Thrown) : Option State :=
  if s.stage = .preparing then some (fail c s m thrown) else none

/-- The transport pulls the request body only once it has been called. -/
def uploadFailed (c : Call) (s : State) (m : Meter) (tooLarge : Bool) : Option State :=
  if s.dispatched then
    some (s.finish (.new (if tooLarge then .bodyTooLarge else .invalidRequest) (s.updateLocal m)
      c.usedProxy none))
  else none

def act (c : Call) (s : State) (m : Meter) : Act → Option State
  | .abort timedOut kind => some (abort c s m timedOut kind)
  | .raise thrown => raise c s m thrown
  | .dispatch queueMs => dispatch c s queueMs
  | .reject => reject c s m
  | .respond head => respond c s m head
  | .errorBody size json => errorBody c s m size json
  | .frame f => frame c s m f
  | .uploadFailed tooLarge => uploadFailed c s m tooLarge
  | .withdraw => withdraw c s m
  | .handOut info => handOut c s m info
  | .take taken => take c s m taken
  | .finishRead assembled => finishRead c s m assembled
  | .construct => construct c s m

def next (c : Call) (s : State) (ev : Event) : Option State :=
  if s.outcome.isSome then none else act c s ev.meter ev.act

def machine (c : Call) : Machine State Event := ⟨.initial c, next c⟩

end SdkExchange
