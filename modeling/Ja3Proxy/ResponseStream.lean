import Ja3Proxy.AsciiText
import Ja3Proxy.RequestRecord
import Ja3Proxy.ResponseHeaders
import Ja3Proxy.TransitionRuns
import Ja3Proxy.WordArithmetic

/-! The response stream of one request (`request_handler`, `transfer`). Data frames go through
a channel with one slot, the last frame through a slot of its own that is read when the sender
is gone. The worker may be cut off wherever it awaits; it is not aborted here. -/
namespace ResponseStream

open FrameReader RequestRecord ResponseHeaders TransitionRuns TransportErrors
open AsciiText (hexId)
open WordArithmetic (saturatingAdd)

/-- Diagnostics as the service builds them: validated identifiers, names from its table and
64-bit numbers. -/
structure Small (d : Diagnostics) : Prop where
  requestId : d.requestId.toList.length ≤ 128
  traceId : d.traceId.toList.length ≤ 32
  spanId : d.spanId.toList.length ≤ 16
  tlsProfile : d.tlsProfile.toList.length ≤ 64
  contextId : ∀ contextId ∈ d.contextId, contextId.toList.length ≤ 128
  numbers : d.attempt < 2 ^ 64 ∧ d.queueMs < 2 ^ 64 ∧ d.totalMs < 2 ^ 64 ∧
    d.requestBytes < 2 ^ 64 ∧ d.responseBytes < 2 ^ 64
  headersMs : ∀ n ∈ d.headersMs, n < 2 ^ 64
  bodyMs : ∀ n ∈ d.bodyMs, n < 2 ^ 64
  cookieRevision : ∀ n ∈ d.cookieRevision, n < 2 ^ 64

structure Fault where
  error : TransportError
  fixed : error.message.utf8ByteSize ≤ 256

def Fault.fromCode (code : ErrorCode) : Fault :=
  ⟨.fromCode code, by cases code <;> decide⟩

structure ProfileName where
  name : String
  short : name.toList.length ≤ 64

inductive BodyItem where
  | chunk (data : Bytes)
  | failure (fault : Fault)

def BodyItem.data : BodyItem → Bytes
  | .chunk data => data
  | .failure _ => []

def BodyItem.failed : BodyItem → Bool
  | .chunk _ => false
  | .failure _ => true

/-- What `send()` returns; the end of the list is the end of the body. -/
structure Upstream where
  status : ℕ
  headers : List HeaderField
  body : List BodyItem

def Upstream.content (r : Upstream) : Bytes := r.body.flatMap BodyItem.data

structure ResponseMetadata where
  requestId : String
  status : ℕ
  headers : List (String × String)
  diagnostics : Diagnostics
  cookieRevision : Option ℕ
  deriving DecidableEq

/-- `serde_json::to_vec` on the three payloads. -/
structure Codec where
  metadata : ResponseMetadata → Bytes
  diagnostics : Diagnostics → Bytes
  error : TransportError → Bytes

/-- Bounded texts and numbers have bounded JSON: an escape takes six bytes at most. -/
structure Codec.Bounded (c : Codec) : Prop where
  diagnostics : ∀ d, Small d → (c.diagnostics d).length ≤ maxMetadataBytes
  error : ∀ e : TransportError, e.message.utf8ByteSize ≤ 256 →
    (∀ d ∈ e.diagnostics, Small d) → (c.error e).length ≤ maxMetadataBytes

/-- The end of `json_frame`. -/
def jsonFrame (kind : UInt8) (json : Bytes) : Except TransportError Bytes :=
  if maxMetadataBytes < json.length then .error protocolError else .ok (frame kind json)

/-- `slice::chunks`, with as much fuel as there are bytes. -/
def chunks (size : ℕ) : ℕ → Bytes → List Bytes
  | 0, _ => []
  | fuel + 1, data =>
    if data.isEmpty then [] else data.take size :: chunks size fuel (data.drop size)

def dataFrames (data : Bytes) : List Bytes :=
  (chunks maxDataBytes data.length data).map (frame 2)

inductive Owner where
  | connection (profile : ProfileName)
  | context (contextId : String) (profile : ProfileName)

def Owner.profile : Owner → ProfileName
  | .connection profile => profile
  | .context _ profile => profile

def Owner.contextId : Owner → Option String
  | .connection _ => none
  | .context contextId _ => some contextId

/-- A request that has passed `validate_metadata` and has been registered. The configuration
allows no larger limits than one gibibyte. -/
structure Exchange where
  codec : Codec
  method : String
  requestId : String
  attempt : UInt64
  traceId : String
  spanId : String
  owner : Owner
  requestLimit : ℕ
  maxResponseBytes : ℕ
  started : ℕ
  measured : ℕ
  queuedAt : ℕ
  queued : ℕ
  clock : ℕ
  requestId_short : requestId.toList.length ≤ 128
  contextId_short : ∀ contextId ∈ owner.contextId, contextId.toList.length ≤ 128
  traceId_hex : hexId 32 traceId = true
  spanId_hex : hexId 16 spanId = true
  requestLimit_le : requestLimit ≤ 2 ^ 30
  maxResponseBytes_le : maxResponseBytes ≤ 2 ^ 30
  measured_le : measured ≤ clock

/-- The diagnostics of the registration; only a request with its own connection knows its
profile by now. -/
def Exchange.diagnostics (x : Exchange) : Diagnostics where
  requestId := x.requestId
  attempt := x.attempt.toNat
  traceId := x.traceId
  spanId := x.spanId
  phase := .queued
  delivery := .notStarted
  queueMs := 0
  headersMs := none
  bodyMs := none
  totalMs := elapsedMs x.started x.measured
  requestBytes := 0
  responseBytes := 0
  tlsProfile :=
    match x.owner with
    | .connection profile => profile.name
    | .context _ _ => ""
  clientReused := none
  contextId := x.owner.contextId
  cookieRevision := none

inductive Stage where
  | queued
  /-- The context or the client is looked for. -/
  | preparing
  /-- In `transfer`, before anything is sent. -/
  | located
  /-- Until `send()` returns. -/
  | working
  /-- `send()` has returned and the upload has not. -/
  | uploading
  /-- `try_join!` has returned. -/
  | opening
  | sendingHead (head : Bytes)
  | pulling (rest : List BodyItem) (count : ℕ)
  | sending (frames : List Bytes) (rest : List BodyItem) (count : ℕ)
  | stopped (error : Option TransportError)
  | reported
  | gone

/-- `uploaded` says that `upload` has returned `Ok`. -/
structure World where
  record : Record
  clock : ℕ
  stage : Stage
  uploaded : Bool
  response : Option Upstream
  channel : List Bytes
  sender : Bool
  receiving : Bool
  terminal : Option Bytes
  yielded : List Bytes
  ended : Bool

def World.initial (x : Exchange) : World where
  record := ⟨x.started, x.queuedAt, x.diagnostics, none, none⟩
  clock := x.clock
  stage := .queued
  uploaded := false
  response := none
  channel := []
  sender := true
  receiving := true
  terminal := none
  yielded := []
  ended := false

inductive Signal where
  | cancelled | deadline | context
  deriving DecidableEq, Repr

def Signal.error : Signal → TransportError
  | .cancelled => .fromCode .cancelled
  | .deadline => .fromCode .timeout
  | .context => .fromCode .contextNotFound

inductive Event where
  | tick (elapsed : ℕ)
  | admitted
  | locate
  | cookies (revision : UInt64)
  | dispatched
  | uploadBytes (count : UInt64)
  | uploadDone
  | respond (response : Upstream)
  | fail (fault : Fault)
  | absorbed (revision : Option UInt64)
  | pull
  | handOver
  | stop (signal : Signal)
  | report
  | leave
  | receive
  | dropBody

def World.goto (w : World) (stage : Stage) : World := { w with stage := stage }

def World.update (w : World) (f : Diagnostics → Diagnostics) : World :=
  { w with record := w.record.update f }

def leaveQueue (queued now : ℕ) (d : Diagnostics) : Diagnostics :=
  { d with queueMs := elapsedMs queued now, phase := .preparing }

def locate (owner : Owner) (d : Diagnostics) : Diagnostics :=
  match owner with
  | .context _ profile => { d with tlsProfile := profile.name, clientReused := none }
  | .connection _ => { d with clientReused := some false }

def setCookies (revision : UInt64) (d : Diagnostics) : Diagnostics :=
  { d with cookieRevision := some revision.toNat }

def countRequest (count : UInt64) (d : Diagnostics) : Diagnostics :=
  { d with requestBytes := count.toNat }

def startBody (revision : Option UInt64) (d : Diagnostics) : Diagnostics :=
  { d with phase := .body, cookieRevision := revision.map UInt64.toNat }

def countResponse (count : ℕ) (d : Diagnostics) : Diagnostics :=
  { d with responseBytes := count }

/-- `HEAD`, 204 and 304, as `transfer` sees it. -/
def bodyless (method : String) (status : ℕ) : Bool :=
  method == "HEAD" || status == 204 || status == 304

def metadataOf (x : Exchange) (w : World) (r : Upstream) (revision : Option ℕ) :
    Except TransportError ResponseMetadata :=
  (responseHeaders r.headers (bodyless x.method r.status)).bind fun headers =>
    .ok ⟨x.requestId, r.status, headers, w.record.diagnosticsAt w.clock, revision⟩

/-- `transfer` from the end of `absorb` to the first frame. -/
def openResponse (x : Exchange) (w : World) (r : Upstream) (revision : Option ℕ) : World :=
  match (metadataOf x w r revision).bind fun value => jsonFrame 1 (x.codec.metadata value) with
  | .ok head => w.goto (.sendingHead head)
  | .error e => w.goto (.stopped (some e))

def sendRest (frames : List Bytes) (rest : List BodyItem) (count : ℕ) : Stage :=
  match frames with
  | [] => .pulling rest count
  | frame :: frames => .sending (frame :: frames) rest count

/-- `count.saturating_add(length)` -/
def pull (x : Exchange) (w : World) (rest : List BodyItem) (count : ℕ) : World :=
  match rest with
  | [] => w.goto (.stopped none)
  | .failure fault :: _ => w.goto (.stopped (some fault.error))
  | .chunk data :: rest =>
    if x.maxResponseBytes < saturatingAdd count data.length then
      (w.update (countResponse (saturatingAdd count data.length))).goto
        (.stopped (some (.fromCode .bodyTooLarge)))
    else
      (w.update (countResponse (saturatingAdd count data.length))).goto
        (sendRest (dataFrames data) rest (saturatingAdd count data.length))

/-- `sender.send(bytes).await`: it waits while the slot is taken. -/
def handOver (w : World) (bytes : Bytes) (stage : Stage) : Option World :=
  if w.receiving then
    if w.channel.isEmpty then some { w with channel := [bytes], stage := stage } else none
  else some (w.goto (.stopped (some (.fromCode .cancelled))))

def terminalFrame (c : Codec) (status : RequestStatus) : Except TransportError Bytes :=
  match status.error with
  | some error => jsonFrame 4 (c.error error)
  | none => jsonFrame 3 (c.diagnostics status.diagnostics)

def closed (w : World) (error : Option TransportError) : Record × RequestStatus :=
  (w.record.update (markBody w.record.started w.clock)).finish w.clock error

def report (x : Exchange) (w : World) (error : Option TransportError) : World :=
  { w with
    record := (closed w error).1
    terminal := (terminalFrame x.codec (closed w error).2).toOption
    stage := .reported }

def Stage.awaits : Stage → Bool
  | .opening | .stopped _ | .reported | .gone => false
  | _ => true

def work (x : Exchange) (w : World) : Event → Option World
  | .admitted =>
    match w.stage with
    | .queued => some ((w.update (leaveQueue x.queued w.clock)).goto .preparing)
    | _ => none
  | .locate =>
    match w.stage with
    | .preparing => some ((w.update (locate x.owner)).goto .located)
    | _ => none
  | .cookies revision =>
    match w.stage with
    | .located => some (w.update (setCookies revision))
    | _ => none
  | .dispatched =>
    match w.stage with
    | .located => some ((w.update markDispatched).goto .working)
    | _ => none
  | .uploadBytes count =>
    match w.stage with
    | .working | .uploading =>
      if count.toNat ≤ x.requestLimit then some (w.update (countRequest count)) else none
    | _ => none
  | .uploadDone =>
    match w.stage with
    | .working => some { w with uploaded := true }
    | .uploading => some { w with uploaded := true, stage := .opening }
    | _ => none
  | .respond response =>
    match w.stage with
    | .working =>
      some { w.update (markResponse w.record.started w.clock) with
        response := some response
        stage := if w.uploaded then .opening else .uploading }
    | _ => none
  | .fail fault =>
    match w.stage with
    | .preparing | .located | .working | .uploading | .opening =>
      some (w.goto (.stopped (some fault.error)))
    | _ => none
  | .absorbed revision =>
    match w.stage, w.response with
    | .opening, some response =>
      some (openResponse x (w.update (startBody revision)) response (revision.map UInt64.toNat))
    | _, _ => none
  | .pull =>
    match w.stage with
    | .pulling rest count => some (pull x w rest count)
    | _ => none
  | .handOver =>
    match w.stage, w.response with
    | .sendingHead head, some response => handOver w head (.pulling response.body 0)
    | .sending (frame :: frames) rest count, _ => handOver w frame (sendRest frames rest count)
    | _, _ => none
  | .stop signal =>
    if w.stage.awaits then some (w.goto (.stopped (some signal.error))) else none
  | .report =>
    match w.stage with
    | .stopped error => some (report x w error)
    | _ => none
  | .leave =>
    match w.stage with
    | .reported =>
      some { w with
        record := (w.record.finish w.clock (some (.fromCode .cancelled))).1
        sender := false
        stage := .gone }
    | _ => none
  | _ => none

def consume (w : World) : Event → Option World
  | .tick elapsed => some { w with clock := w.clock + elapsed }
  | .receive =>
    if w.receiving && !w.ended then
      match w.channel with
      | bytes :: channel => some { w with channel := channel, yielded := w.yielded ++ [bytes] }
      | [] =>
        if w.sender then none
        else some { w with
          yielded := w.yielded ++ w.terminal.toList, terminal := none, ended := true }
    else none
  | .dropBody => if w.ended then none else some { w with receiving := false, channel := [] }
  | _ => none

def next (x : Exchange) (w : World) (e : Event) : Option World :=
  match work x w e with
  | some v => some v
  | none => consume w e

def machine (x : Exchange) : Machine World Event := ⟨.initial x, next x⟩

end ResponseStream
