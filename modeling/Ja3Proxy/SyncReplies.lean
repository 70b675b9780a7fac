import Ja3Proxy.ReportedDiagnostics
import Ja3Proxy.SyncArguments

/-! The answer of one exchange on its way from the worker to the synchronous client (`sync/ipc.ts`,
`sync/worker.ts`): the values that the worker posts, and what the client makes of the copies. -/
namespace SyncReplies

open ClonedValues ExceptRules ReportedDiagnostics SdkErrors SdkExchange SyncArguments TransitionRuns
open TransportErrors (ErrorCode Phase Delivery)
open SafeIntegers (maxSafe)
open SyncArguments (protocolError)

def codeName : ErrorCode → String
  | .unauthorized => "UNAUTHORIZED"
  | .invalidRequest => "INVALID_REQUEST"
  | .unsupportedCapability => "UNSUPPORTED_CAPABILITY"
  | .invalidProfile => "INVALID_PROFILE"
  | .egressRequired => "EGRESS_REQUIRED"
  | .ssrfBlocked => "SSRF_BLOCKED"
  | .bodyTooLarge => "BODY_TOO_LARGE"
  | .busy => "BUSY"
  | .timeout => "TIMEOUT"
  | .cancelled => "CANCELLED"
  | .dnsError => "DNS_ERROR"
  | .proxyError => "PROXY_ERROR"
  | .tlsError => "TLS_ERROR"
  | .connectError => "CONNECT_ERROR"
  | .protocolError => "PROTOCOL_ERROR"
  | .contextNotFound => "CONTEXT_NOT_FOUND"
  | .contextConflict => "CONTEXT_CONFLICT"
  | .contextLimit => "CONTEXT_LIMIT"
  | .cookieLimit => "COOKIE_LIMIT"
  | .duplicateRequest => "DUPLICATE_REQUEST"
  | .unknown => "UNKNOWN"

def ERROR_CODES : List ErrorCode :=
  [.unauthorized, .invalidRequest, .unsupportedCapability, .invalidProfile, .egressRequired,
    .ssrfBlocked, .bodyTooLarge, .busy, .timeout, .cancelled, .dnsError, .proxyError, .tlsError,
    .connectError, .protocolError, .contextNotFound, .contextConflict, .contextLimit, .cookieLimit,
    .duplicateRequest, .unknown]

def kindName : FailureKind → String
  | .proxyUnreachable => "proxy_unreachable"
  | .serviceUnavailable => "service_unavailable"
  | .connectionLost => "connection_lost"
  | .unknown => "unknown"
  | .clientClosed => "client_closed"
  | .queueFull => "queue_full"
  | .bufferLimit => "buffer_limit"
  | .invalidInput => "invalid_input"
  | .workerUnavailable => "worker_unavailable"

def kinds : List FailureKind :=
  [.proxyUnreachable, .serviceUnavailable, .connectionLost, .unknown, .clientClosed, .queueFull,
    .bufferLimit, .invalidInput, .workerUnavailable]

def phaseName : Phase → String
  | .queued => "queued"
  | .preparing => "preparing"
  | .upstream => "upstream"
  | .body => "body"
  | .complete => "complete"

def phases : List Phase := [.queued, .preparing, .upstream, .body, .complete]

def deliveryName : Delivery → String
  | .notStarted => "not_started"
  | .possiblySent => "possibly_sent"
  | .responseStarted => "response_started"

def deliveries : List Delivery := [.notStarted, .possiblySent, .responseStarted]

/-- `list.find(name => name === value)` -/
def named {α : Type} (all : List α) (name : α → String) (value : Value) : Option α :=
  all.find? fun a => isString value (name a)

def nullable (n : Option ℕ) : Value := (n.map naturalValue).getD .null

def diagnosticsEntries (d : Diagnostics) : List (String × Option Value) :=
  [("requestId", some (.string d.requestId)), ("attempt", some (naturalValue d.attempt)),
    ("phase", some (.string (phaseName d.phase))),
    ("delivery", some (.string (deliveryName d.delivery))),
    ("queueMs", some (naturalValue d.queueMs)),
    ("headersMs", some (nullable d.headersMs)), ("bodyMs", some (nullable d.bodyMs)),
    ("totalMs", some (naturalValue d.totalMs)),
    ("requestBytes", some (naturalValue d.requestBytes)),
    ("responseBytes", some (naturalValue d.responseBytes)),
    ("tlsProfile", some (.string d.tlsProfile)), ("traceId", d.traceId.map .string),
    ("spanId", d.spanId.map .string), ("clientReused", d.clientReused.map .boolean),
    ("contextId", d.contextId.map .string), ("cookieRevision", d.cookieRevision.map naturalValue)]

def diagnosticsValue (d : Diagnostics) : Value := literal (present (diagnosticsEntries d))

def encodeError (e : SdkError) : Value :=
  literal [("code", .string (codeName e.code)), ("kind", .string (kindName e.kind)),
    ("usedProxy", .boolean e.usedProxy), ("diagnostics", diagnosticsValue e.diagnostics)]

structure BufferedResponse where
  status : ℕ
  headers : List (String × List String)
  body : ByteView
  elapsed : ℚ
  diagnostics : Diagnostics
  deriving DecidableEq, Repr

/-- The headers are an object without a prototype, so that no name of a header is special. -/
def headersObject (headers : List (String × List String)) : Value :=
  .object .null (headers.map fun h => (⟨.text h.1, true, false⟩, textsValue h.2))

def plainResponse (r : BufferedResponse) : Value :=
  literal [("status", naturalValue r.status), ("headers", headersObject r.headers),
    ("body", .bytes (compactBytes r.body)), ("elapsed", .number r.elapsed),
    ("diagnostics", diagnosticsValue r.diagnostics)]

abbrev Answer := Except SdkError BufferedResponse

def triedValue : Answer → Value
  | .ok r => literal [("ok", .boolean true), ("value", plainResponse r)]
  | .error e => literal [("ok", .boolean false), ("error", encodeError e)]

/-- `reply(id, ok, value)` for an operation that tries the request, or for one that does not. -/
def reply (id : ℕ) (tried : Bool) (answer : Answer) : Value :=
  if tried then
    literal [("id", naturalValue id), ("ok", .boolean true), ("value", triedValue answer)]
  else match answer with
    | .ok r => literal [("id", naturalValue id), ("ok", .boolean true), ("value", plainResponse r)]
    | .error e => literal [("id", naturalValue id), ("ok", .boolean false),
      ("error", encodeError e)]

/-- `(headers[name.toLowerCase()] ??= []).push(value)` -/
def addHeader (headers : List (String × List String)) (h : String × String) :
    List (String × List String) :=
  if headers.any (·.1 == AsciiText.lower h.1) then
    headers.map fun entry =>
      if entry.1 == AsciiText.lower h.1 then (entry.1, entry.2 ++ [h.2]) else entry
  else headers ++ [(AsciiText.lower h.1, [h.2])]

def groupHeaders (headers : List (String × String)) : List (String × List String) :=
  headers.foldl addHeader []

/-- What `buffer` returns for an exchange that completed, with the bytes that it assembled. -/
def buffered (s : State) (body : ByteView) : Option BufferedResponse :=
  match s.metadata, s.terminal with
  | some metadata, some (.ok d) =>
    some ⟨metadata.status, groupHeaders metadata.headers, body, d.totalMs, d⟩
  | _, _ => none

def answer (s : State) (body : ByteView) : Option Answer :=
  match s.outcome with
  | some (.error e) => some (.error e)
  | some (.ok _) => (buffered s body).map .ok
  | none => none

def natural (value : Value) : Option ℕ :=
  match value with
  | .number q => if isSafeInteger q && 0 ≤ q then some q.num.toNat else none
  | _ => none

def nullableNatural (value : Value) : Option (Option ℕ) :=
  match value with
  | .null => some none
  | value => (natural value).map some

def stringOf (value : Value) : Option String :=
  match value with
  | .string s => some s
  | _ => none

def booleanOf (value : Value) : Option Bool :=
  match value with
  | .boolean b => some b
  | _ => none

def absent {α : Type} (value : Value) (read : Value → Option α) : Option (Option α) :=
  if isUndefined value then some none else (read value).map some

/-- `schemaDiagnostics` with the schema's view of the two identifiers: without a span the missing
ones are supplied to the schema, and only to it. -/
def readTrace (fields : Fields) : Option (Option String × Option String) :=
  if fields.any (·.1 == "spanId") then
    (stringOf (fields.read "traceId")).bind fun traceId =>
    (stringOf (fields.read "spanId")).map fun spanId => (some traceId, some spanId)
  else if fields.any (·.1 == "traceId") then
    (stringOf (fields.read "traceId")).map fun traceId => (some traceId, none)
  else some (none, none)

/-- `diagnostics(value)` of `protocol.ts` on the copy of an object. -/
def readDiagnostics (fields : Fields) : Option Diagnostics :=
  (stringOf (fields.read "requestId")).bind fun requestId =>
  (natural (fields.read "attempt")).bind fun attempt =>
  (named phases phaseName (fields.read "phase")).bind fun phase =>
  (named deliveries deliveryName (fields.read "delivery")).bind fun delivery =>
  (natural (fields.read "queueMs")).bind fun queueMs =>
  (nullableNatural (fields.read "headersMs")).bind fun headersMs =>
  (nullableNatural (fields.read "bodyMs")).bind fun bodyMs =>
  (natural (fields.read "totalMs")).bind fun totalMs =>
  (natural (fields.read "requestBytes")).bind fun requestBytes =>
  (natural (fields.read "responseBytes")).bind fun responseBytes =>
  (stringOf (fields.read "tlsProfile")).bind fun tlsProfile =>
  (readTrace fields).bind fun trace =>
  (absent (fields.read "clientReused") booleanOf).bind fun clientReused =>
  (absent (fields.read "contextId") stringOf).bind fun contextId =>
  (absent (fields.read "cookieRevision") natural).bind fun cookieRevision =>
  let d : Diagnostics :=
    ⟨requestId, attempt, phase, delivery, queueMs, headersMs, bodyMs, totalMs, requestBytes,
      responseBytes, tlsProfile, trace.1, trace.2, clientReused, contextId, cookieRevision⟩
  if diagnosticsOk d none then some d else none

def ipcDiagnostics (value : Value) : Except SdkError Diagnostics :=
  match (fieldsOf value).bind readDiagnostics with
  | some d => .ok d
  | none => .error protocolError

def decodeError (value : Value) : Except SdkError SdkError :=
  (object value).bind fun input =>
  match named ERROR_CODES codeName (input.read "code"), named kinds kindName (input.read "kind"),
      booleanOf (input.read "usedProxy") with
  | some code, some kind, some usedProxy =>
    (ipcDiagnostics (input.read "diagnostics")).bind fun d =>
      .ok (.new code d usedProxy (some kind))
  | _, _, _ => .error protocolError

def headerValues (field : String × Value) : Except SdkError (String × List String) :=
  match field.2 with
  | .array items =>
    match items.mapM stringOf with
    | some texts => .ok (field.1, texts)
    | none => .error protocolError
  | _ => .error protocolError

def elapsedOf (value : Value) : Option ℚ :=
  match value with
  | .number q => if 0 ≤ q then some q else none
  | _ => none

def bytesOf (value : Value) : Option ByteView :=
  match value with
  | .bytes view => some view
  | _ => none

def statusOf (value : Value) : Option ℕ :=
  match value with
  | .number q => if q.den == 1 && 100 ≤ q && q ≤ 599 then some q.num.toNat else none
  | _ => none

/-- `response` without the helpers that read the body. -/
def response (value : Value) : Except SdkError BufferedResponse :=
  (object value).bind fun input =>
  match statusOf (input.read "status"), bytesOf (input.read "body"),
      elapsedOf (input.read "elapsed") with
  | some status, some body, some elapsed =>
    (object (input.read "headers")).bind fun headerObject =>
    (headerObject.mapM headerValues).bind fun headers =>
    (ipcDiagnostics (input.read "diagnostics")).bind fun diagnostics =>
    .ok ⟨status, headers, body, elapsed, diagnostics⟩
  | _, _, _ => .error protocolError

def result (value : Value) : Except SdkError Answer :=
  (object value).bind fun input =>
  match booleanOf (input.read "ok") with
  | some true => (response (input.read "value")).map .ok
  | some false => (decodeError (input.read "error")).map .error
  | none => .error protocolError

/-- `#receive` of the packet with this number: its value, or the error that is thrown. -/
def receive (id : ℕ) (value : Value) : Except SdkError Value :=
  (object value).bind fun packet =>
  match packet.read "id", booleanOf (packet.read "ok") with
  | .number q, some ok =>
    if q = id then
      if ok then .ok (packet.read "value")
      else (decodeError (packet.read "error")).bind fun e => .error e
    else .error protocolError
  | _, _ => .error protocolError

/-- `request` returns or throws; `tryRequest` returns either, and a thrown error as well. -/
def answered (id : ℕ) (tried : Bool) (value : Value) : Answer :=
  if tried then
    match (receive id value).bind result with
    | .ok answer => answer
    | .error e => .error e
  else (receive id value).bind response

structure Exact (d : Diagnostics) : Prop where
  attempt : d.attempt ≤ maxSafe
  queueMs : d.queueMs ≤ maxSafe
  headersMs : ∀ n ∈ d.headersMs, n ≤ maxSafe
  bodyMs : ∀ n ∈ d.bodyMs, n ≤ maxSafe
  totalMs : d.totalMs ≤ maxSafe
  requestBytes : d.requestBytes ≤ maxSafe
  responseBytes : d.responseBytes ≤ maxSafe
  cookieRevision : ∀ n ∈ d.cookieRevision, n ≤ maxSafe

variable {d : Diagnostics} {e : SdkError} {v : Value} {n : ℕ}

theorem natural_iff {m : ℕ} :
    natural (naturalValue n) = some m ↔ n ≤ maxSafe ∧ n = m := by
  have hpos : (0 : ℚ) ≤ n := Rat.natCast_nonneg
  by_cases hn : n ≤ maxSafe
  · have hsafe : isSafeInteger n = true := isSafeInteger_cast n |>.mpr hn
    simp [natural, naturalValue, hsafe, hpos, hn]
  · have hsafe : isSafeInteger n = false := by
      rw [Bool.eq_false_iff]
      exact fun h => hn (isSafeInteger_cast n |>.mp h)
    simp [natural, naturalValue, hsafe, hn]

/-- A number that may be missing, in one of its two spellings. -/
theorem someNatural_iff {o : Option ℕ} :
    (natural (naturalValue n)).map some = some o ↔ n ≤ maxSafe ∧ some n = o := by
  rw [Option.map_eq_some_iff]
  constructor
  · rintro ⟨m, hm, rfl⟩
    obtain ⟨hle, rfl⟩ := natural_iff.mp hm
    exact ⟨hle, rfl⟩
  · rintro ⟨hle, rfl⟩
    exact ⟨n, natural_iff.mpr ⟨hle, rfl⟩, rfl⟩

theorem nullableNatural_iff {o o' : Option ℕ} :
    nullableNatural (nullable o) = some o' ↔ (∀ n ∈ o, n ≤ maxSafe) ∧ o = o' := by
  cases o with
  | none => simp [nullable, nullableNatural, Option.map]
  | some n =>
    rw [show nullableNatural (nullable (some n)) = (natural (naturalValue n)).map some from rfl,
      someNatural_iff]
    simp

theorem absentNatural_iff {o o' : Option ℕ} :
    absent ((o.map naturalValue).getD .undefined) natural = some o' ↔
      (∀ n ∈ o, n ≤ maxSafe) ∧ o = o' := by
  cases o with
  | none => simp [absent, isUndefined]
  | some n =>
    rw [show absent (((some n).map naturalValue).getD .undefined) natural =
      (natural (naturalValue n)).map some from rfl, someNatural_iff]
    simp

@[simp] theorem absent_string (o : Option String) :
    absent ((o.map Value.string).getD .undefined) stringOf = some o := by
  cases o <;> rfl

@[simp] theorem absent_boolean (o : Option Bool) :
    absent ((o.map Value.boolean).getD .undefined) booleanOf = some o := by
  cases o <;> rfl

@[simp] theorem named_phase (p : Phase) :
    named phases phaseName (.string (phaseName p)) = some p := by
  cases p <;> rfl

@[simp] theorem named_delivery (x : Delivery) :
    named deliveries deliveryName (.string (deliveryName x)) = some x := by
  cases x <;> rfl

@[simp] theorem named_code (code : ErrorCode) :
    named ERROR_CODES codeName (.string (codeName code)) = some code := by
  cases code <;> rfl

@[simp] theorem named_kind (kind : FailureKind) :
    named kinds kindName (.string (kindName kind)) = some kind := by
  cases kind <;> rfl

theorem readTrace_entries (hd : Valid d) :
    readTrace (present (diagnosticsEntries d)) = some (d.traceId, d.spanId) := by
  have hspan : d.traceId = none → d.spanId = none := by
    intro htrace
    simp only [Valid, diagnosticsOk, htrace, Bool.and_eq_true, Option.isNone_iff_eq_none] at hd
    exact hd.1.2
  rw [readTrace, any_present, any_present]
  cases htrace : d.traceId with
  | none => simp [diagnosticsEntries, htrace, hspan htrace]
  | some traceId =>
    cases hs : d.spanId with
    | none => simp [diagnosticsEntries, htrace, hs, stringOf]
    | some spanId => simp [diagnosticsEntries, htrace, hs, stringOf]

structure Posted (fields : Fields) (d : Diagnostics) : Prop where
  requestId : fields.read "requestId" = .string d.requestId
  attempt : fields.read "attempt" = naturalValue d.attempt
  phase : fields.read "phase" = .string (phaseName d.phase)
  delivery : fields.read "delivery" = .string (deliveryName d.delivery)
  queueMs : fields.read "queueMs" = naturalValue d.queueMs
  headersMs : fields.read "headersMs" = nullable d.headersMs
  bodyMs : fields.read "bodyMs" = nullable d.bodyMs
  totalMs : fields.read "totalMs" = naturalValue d.totalMs
  requestBytes : fields.read "requestBytes" = naturalValue d.requestBytes
  responseBytes : fields.read "responseBytes" = naturalValue d.responseBytes
  tlsProfile : fields.read "tlsProfile" = .string d.tlsProfile
  clientReused : fields.read "clientReused" = (d.clientReused.map Value.boolean).getD .undefined
  contextId : fields.read "contextId" = (d.contextId.map Value.string).getD .undefined
  cookieRevision : fields.read "cookieRevision" =
    (d.cookieRevision.map naturalValue).getD .undefined
  trace : readTrace fields = some (d.traceId, d.spanId)

theorem posted (hd : Valid d) : Posted (present (diagnosticsEntries d)) d := by
  refine ⟨?_, ?_, ?_, ?_, ?_, ?_, ?_, ?_, ?_, ?_, ?_, ?_, ?_, ?_, readTrace_entries hd⟩ <;>
    simp [diagnosticsEntries]

theorem readDiagnostics_iff {fields : Fields} (h : Posted fields d) (hd : Valid d)
    {d' : Diagnostics} : readDiagnostics fields = some d' ↔ Exact d ∧ d = d' := by
  have hd' : diagnosticsOk d none = true := hd
  simp only [readDiagnostics, h.requestId, h.attempt, h.phase, h.delivery, h.queueMs, h.headersMs,
    h.bodyMs, h.totalMs, h.requestBytes, h.responseBytes, h.tlsProfile, h.clientReused, h.contextId,
    h.cookieRevision, h.trace, stringOf, named_phase, named_delivery, absent_string, absent_boolean,
    Option.bind_some]
  constructor
  · intro hread
    obtain ⟨_, hattempt, hread⟩ := Option.bind_eq_some_iff.mp hread
    obtain ⟨_, hqueue, hread⟩ := Option.bind_eq_some_iff.mp hread
    obtain ⟨_, hheaders, hread⟩ := Option.bind_eq_some_iff.mp hread
    obtain ⟨_, hbody, hread⟩ := Option.bind_eq_some_iff.mp hread
    obtain ⟨_, htotal, hread⟩ := Option.bind_eq_some_iff.mp hread
    obtain ⟨_, hrequest, hread⟩ := Option.bind_eq_some_iff.mp hread
    obtain ⟨_, hresponse, hread⟩ := Option.bind_eq_some_iff.mp hread
    obtain ⟨_, hrevision, hread⟩ := Option.bind_eq_some_iff.mp hread
    obtain ⟨attempt_le, rfl⟩ := natural_iff.mp hattempt
    obtain ⟨queue_le, rfl⟩ := natural_iff.mp hqueue
    obtain ⟨headers_le, rfl⟩ := nullableNatural_iff.mp hheaders
    obtain ⟨body_le, rfl⟩ := nullableNatural_iff.mp hbody
    obtain ⟨total_le, rfl⟩ := natural_iff.mp htotal
    obtain ⟨request_le, rfl⟩ := natural_iff.mp hrequest
    obtain ⟨response_le, rfl⟩ := natural_iff.mp hresponse
    obtain ⟨revision_le, rfl⟩ := absentNatural_iff.mp hrevision
    rw [if_pos hd'] at hread
    exact ⟨⟨attempt_le, queue_le, headers_le, body_le, total_le, request_le, response_le,
      revision_le⟩, Option.some.inj hread⟩
  · rintro ⟨hexact, rfl⟩
    rw [natural_iff.mpr ⟨hexact.attempt, rfl⟩, natural_iff.mpr ⟨hexact.queueMs, rfl⟩,
      nullableNatural_iff.mpr ⟨hexact.headersMs, rfl⟩, nullableNatural_iff.mpr ⟨hexact.bodyMs, rfl⟩,
      natural_iff.mpr ⟨hexact.totalMs, rfl⟩, natural_iff.mpr ⟨hexact.requestBytes, rfl⟩,
      natural_iff.mpr ⟨hexact.responseBytes, rfl⟩,
      absentNatural_iff.mpr ⟨hexact.cookieRevision, rfl⟩]
    simp only [Option.bind_some]
    exact if_pos hd'

def Carried {α : Type} (d : Diagnostics) (read : Except SdkError α) (a : α) : Prop :=
  (Exact d → read = .ok a) ∧ (¬ Exact d → read = .error protocolError)

theorem Carried.map {α β : Type} {read : Except SdkError α} {a : α} (h : Carried d read a)
    (f : α → β) : Carried d (read.map f) (f a) := by
  constructor
  · intro hexact
    rw [h.1 hexact]
    rfl
  · intro hexact
    rw [h.2 hexact]
    rfl

theorem ipcDiagnostics_carried (hd : Valid d) :
    Carried d (ipcDiagnostics (diagnosticsValue d)) d := by
  have hread : (fieldsOf (diagnosticsValue d)).bind readDiagnostics =
      readDiagnostics (present (diagnosticsEntries d)) := by
    simp [diagnosticsValue]
  constructor
  · intro hexact
    rw [ipcDiagnostics, hread, (readDiagnostics_iff (posted hd) hd).mpr ⟨hexact, rfl⟩]
  · intro hexact
    have hnone : readDiagnostics (present (diagnosticsEntries d)) = none := by
      rw [Option.eq_none_iff_forall_not_mem]
      intro d' hd'
      exact hexact ((readDiagnostics_iff (posted hd) hd).mp hd').1
    rw [ipcDiagnostics, hread, hnone]

theorem decodeError_carried (hd : Valid e.diagnostics) :
    Carried e.diagnostics (decodeError (encodeError e)) e := by
  have hdecode : decodeError (encodeError e) =
      (ipcDiagnostics (diagnosticsValue e.diagnostics)).map
        fun d => .new e.code d e.usedProxy (some e.kind) := by
    simp only [decodeError, encodeError, object_literal, Except.bind, read_cons]
    simp only [String.reduceEq, if_true, if_false, named_code, named_kind, booleanOf]
    cases ipcDiagnostics (diagnosticsValue e.diagnostics) <;> rfl
  rw [hdecode]
  exact (ipcDiagnostics_carried hd).map _

def responseCopy (r : BufferedResponse) : Value :=
  literal [("status", naturalValue r.status),
    ("headers", literal (r.headers.map fun h => (h.1, textsValue h.2))),
    ("body", .bytes (compactBytes r.body)), ("elapsed", .number r.elapsed),
    ("diagnostics", diagnosticsValue r.diagnostics)]

@[simp] theorem transferable_diagnostics (d : Diagnostics) : Transferable (diagnosticsValue d) := by
  have hnullable : ∀ o : Option ℕ, Transferable (nullable o) := by
    intro o
    cases o <;> rfl
  apply transferable_present
  obtain ⟨_, _, _, _, _, _, _, _, _, _, _, _, _, _ | reused, _, _⟩ := d <;>
    simp [diagnosticsEntries, hnullable]

@[simp] theorem transferable_error (e : SdkError) : Transferable (encodeError e) :=
  transferable_literal (by simp)

theorem clone_headers (headers : List (String × List String)) :
    clone (headersObject headers) =
      some (literal (headers.map fun h => (h.1, textsValue h.2))) := by
  have h : ∀ f ∈ headers.map fun h => (h.1, textsValue h.2), Transferable f.2 := by
    intro f hf
    obtain ⟨h, -, rfl⟩ := List.mem_map.mp hf
    exact transferable_texts h.2
  have hclone := transferable_fields h .null
  rwa [List.map_map] at hclone

theorem clone_response (r : BufferedResponse) :
    clone (plainResponse r) = some (responseCopy r) := by
  refine clone_literal ?_
  refine .cons ⟨rfl, rfl⟩ (.cons ⟨rfl, clone_headers r.headers⟩ (.cons ⟨rfl, rfl⟩
    (.cons ⟨rfl, rfl⟩ (.cons ⟨rfl, transferable_diagnostics r.diagnostics⟩ .nil))))

theorem headerValues_texts (headers : List (String × List String)) :
    (headers.map fun h => (h.1, textsValue h.2)).mapM headerValues = .ok headers := by
  have hone : ∀ h : String × List String, headerValues (h.1, textsValue h.2) = .ok h := by
    intro h
    have htexts : (h.2.map Value.string).mapM stringOf = some h.2 := by
      induction h.2 with
      | nil => rfl
      | cons s rest ih => simp [List.mapM_cons, stringOf, ih]
    simp [headerValues, textsValue, htexts]
  have h : (headers.map fun h => (h.1, textsValue h.2)).mapM headerValues =
      if headers.all fun _ => true then .ok headers else .error protocolError :=
    mapM_written fun h _ => hone h
  simpa using h

/-- An answer as `buffer` and the errors of the SDK can be. -/
def Sendable : Answer → Prop
  | .ok r => Valid r.diagnostics ∧ 100 ≤ r.status ∧ r.status ≤ 599 ∧ 0 ≤ r.elapsed
  | .error e => Valid e.diagnostics

def diagnosticsOf : Answer → Diagnostics
  | .ok r => r.diagnostics
  | .error e => e.diagnostics

def compacted : Answer → Answer
  | .ok r => .ok { r with body := compactBytes r.body }
  | .error e => .error e

theorem statusOf_natural {status : ℕ} (h : 100 ≤ status ∧ status ≤ 599) :
    statusOf (naturalValue status) = some status := by
  have hlow : (100 : ℚ) ≤ status := Rat.natCast_le_natCast.mpr h.1
  have hhigh : (status : ℚ) ≤ 599 := Rat.natCast_le_natCast.mpr h.2
  have hden : (status : ℚ).den = 1 := rfl
  simp [statusOf, naturalValue, hlow, hhigh, hden]

theorem response_carried {r : BufferedResponse} (h : Sendable (.ok r)) :
    Carried r.diagnostics (response (responseCopy r)) { r with body := compactBytes r.body } := by
  obtain ⟨hd, hlow, hhigh, helapsed⟩ := h
  have hresponse : response (responseCopy r) =
      (ipcDiagnostics (diagnosticsValue r.diagnostics)).map
        fun d => ⟨r.status, r.headers, compactBytes r.body, r.elapsed, d⟩ := by
    have hstatus := statusOf_natural ⟨hlow, hhigh⟩
    simp only [response, responseCopy, object_literal, Except.bind, read_cons]
    simp only [String.reduceEq, if_true, if_false, hstatus, bytesOf, elapsedOf, helapsed,
      object_literal, headerValues_texts]
    cases ipcDiagnostics (diagnosticsValue r.diagnostics) <;> rfl
  rw [hresponse]
  exact (ipcDiagnostics_carried hd).map _

def settledCopy (fields : Fields) (a : Answer) : Value :=
  match a with
  | .ok r => literal (fields ++ [("ok", .boolean true), ("value", responseCopy r)])
  | .error e => literal (fields ++ [("ok", .boolean false), ("error", encodeError e)])

theorem clone_tried (a : Answer) : clone (triedValue a) = some (settledCopy [] a) := by
  cases a with
  | ok r => exact clone_literal (.cons ⟨rfl, rfl⟩ (.cons ⟨rfl, clone_response r⟩ .nil))
  | error e => exact clone_literal (.cons ⟨rfl, rfl⟩ (.cons ⟨rfl, transferable_error e⟩ .nil))

theorem clone_reply (id : ℕ) (tried : Bool) (a : Answer) :
    clone (reply id tried a) =
      some (if tried then
        literal [("id", naturalValue id), ("ok", .boolean true), ("value", settledCopy [] a)]
      else settledCopy [("id", naturalValue id)] a) := by
  cases tried with
  | true =>
    exact clone_literal
      (.cons ⟨rfl, rfl⟩ (.cons ⟨rfl, rfl⟩ (.cons ⟨rfl, clone_tried a⟩ .nil)))
  | false =>
    cases a with
    | ok r =>
      exact clone_literal
        (.cons ⟨rfl, rfl⟩ (.cons ⟨rfl, rfl⟩ (.cons ⟨rfl, clone_response r⟩ .nil)))
    | error e =>
      exact clone_literal
        (.cons ⟨rfl, rfl⟩ (.cons ⟨rfl, rfl⟩ (.cons ⟨rfl, transferable_error e⟩ .nil)))

theorem result_carried {a : Answer} (h : Sendable a) :
    Carried (diagnosticsOf a) (result (settledCopy [] a)) (compacted a) := by
  cases a with
  | ok r =>
    have hresult : result (settledCopy [] (.ok r)) = (response (responseCopy r)).map .ok := by
      simp [result, settledCopy, Except.bind, booleanOf]
    rw [hresult]
    exact (response_carried h).map _
  | error e =>
    have hresult : result (settledCopy [] (.error e)) =
        (decodeError (encodeError e)).map .error := by
      simp [result, settledCopy, Except.bind, booleanOf]
    rw [hresult]
    exact (decodeError_carried h).map _

theorem answered_carried {a : Answer} (h : Sendable a) (id : ℕ) (tried : Bool) :
    ∃ copy, clone (reply id tried a) = some copy ∧
      (Exact (diagnosticsOf a) → answered id tried copy = compacted a) ∧
      (¬ Exact (diagnosticsOf a) → answered id tried copy = .error protocolError) := by
  refine ⟨_, clone_reply id tried a, ?_⟩
  cases tried with
  | true =>
    have hreceive : receive id (literal [("id", naturalValue id), ("ok", .boolean true),
        ("value", settledCopy [] a)]) = .ok (settledCopy [] a) := by
      simp [receive, Except.bind, booleanOf, naturalValue]
    have hresult := result_carried h
    simp only [answered, if_true, hreceive, Except.bind]
    constructor
    · intro hexact
      rw [hresult.1 hexact]
    · intro hexact
      rw [hresult.2 hexact]
  | false =>
    cases a with
    | ok r =>
      have hreceive : receive id (settledCopy [("id", naturalValue id)] (.ok r)) =
          .ok (responseCopy r) := by
        simp [receive, settledCopy, Except.bind, booleanOf, naturalValue]
      have hresponse := response_carried h
      simp only [answered, Bool.false_eq_true, if_false, hreceive, Except.bind]
      exact hresponse
    | error e =>
      have hreceive : receive id (settledCopy [("id", naturalValue id)] (.error e)) =
          (decodeError (encodeError e)).bind fun e => .error e := by
        simp [receive, settledCopy, Except.bind, booleanOf, naturalValue]
      have hdecode := decodeError_carried (e := e) h
      simp only [answered, Bool.false_eq_true, if_false, hreceive]
      constructor
      · intro hexact
        rw [hdecode.1 hexact]
        rfl
      · intro hexact
        rw [hdecode.2 hexact]
        rfl

theorem lookup_appended (headers : List (String × List String)) (key value name : String) :
    ((headers.map fun entry => if entry.1 == key then (entry.1, entry.2 ++ [value])
      else entry).lookup
      name) = (headers.lookup name).map fun values =>
        if name = key then values ++ [value] else values := by
  induction headers with
  | nil => rfl
  | cons entry rest ih =>
    obtain ⟨key', values⟩ := entry
    rw [List.map_cons]
    by_cases hkey : key' = key <;> by_cases hname : name = key' <;>
      simp_all [lookup_pair]

theorem lookup_of_any {headers : List (String × List String)} {key : String} :
    (headers.lookup key).isSome = headers.any (·.1 == key) := by
  induction headers with
  | nil => rfl
  | cons entry rest ih =>
    obtain ⟨key', values⟩ := entry
    rw [lookup_pair, List.any_cons, ← ih]
    by_cases h : key = key'
    · simp [h]
    · simp [h, beq_false_of_ne (Ne.symm h)]

theorem lookup_append (headers : List (String × List String)) (key : String) (values : List String)
    (name : String) :
    (headers ++ [(key, values)]).lookup name =
      (headers.lookup name).or (if name = key then some values else none) := by
  induction headers with
  | nil => simp [lookup_pair]
  | cons entry rest ih =>
    obtain ⟨key', values'⟩ := entry
    rw [List.cons_append, lookup_pair, lookup_pair, ih]
    by_cases h : name = key' <;> simp [h]

theorem lookup_addHeader (headers : List (String × List String)) (h : String × String)
    (name : String) :
    ((addHeader headers h).lookup name).getD [] =
      (headers.lookup name).getD [] ++ if AsciiText.lower h.1 = name then [h.2] else [] := by
  unfold addHeader
  rw [← lookup_of_any]
  by_cases hname : AsciiText.lower h.1 = name
  · subst hname
    cases hfound : headers.lookup (AsciiText.lower h.1) with
    | none => simp [lookup_append, hfound]
    | some values =>
      simp only [Option.isSome_some, if_true, lookup_appended, hfound, Option.map_some,
        Option.getD_some]
  · cases hfound : headers.lookup (AsciiText.lower h.1) with
    | none => simp [lookup_append, hname, Ne.symm hname]
    | some values =>
      simp only [Option.isSome_some, if_true, lookup_appended, if_neg (Ne.symm hname), if_neg hname,
        List.append_nil, Option.map_id']

/-- The values of a header in the order of the metadata. -/
theorem lookup_groupHeaders (headers : List (String × String)) (name : String) :
    ((groupHeaders headers).lookup name).getD [] =
      (headers.filter fun h => AsciiText.lower h.1 == name).map (·.2) := by
  have hfold : ∀ start : List (String × List String),
      ((headers.foldl addHeader start).lookup name).getD [] = (start.lookup name).getD [] ++
        (headers.filter fun h => AsciiText.lower h.1 == name).map (·.2) := by
    induction headers with
    | nil => simp
    | cons h rest ih =>
      intro start
      rw [List.foldl_cons, ih, lookup_addHeader]
      by_cases hname : AsciiText.lower h.1 = name <;> simp [hname]
  exact hfold []

variable {c : Call} {s : State}

theorem answer_sendable (h : Reportable s) {body : ByteView} {a : Answer}
    (ha : answer s body = some a) : Sendable a := by
  unfold answer at ha
  split at ha
  · next e houtcome =>
    cases ha
    exact h.outcome e houtcome
  · obtain ⟨r, hr, rfl⟩ := Option.map_eq_some_iff.mp ha
    unfold buffered at hr
    split at hr
    · next metadata d hmetadata hterminal =>
      cases hr
      have hstatus := (h.metadata metadata hmetadata).status
      have hd : Valid d := h.terminal _ hterminal
      exact ⟨hd, Nat.le_trans (by decide) hstatus.1, hstatus.2, Rat.natCast_nonneg⟩
    · cases hr
  · cases ha

/-- Whatever a call of the asynchronous core ends with, the caller of the synchronous client gets
the same error or response, unless a number of its diagnostics is no safe integer. The same goes
for what the checks before a call throw. -/
theorem reply_arrives (hc : Checked c) {es : List Event} (hes : ∀ ev ∈ es, Proper ev)
    (hrun : (machine c).run (.initial c) es = some s) {body : ByteView} {a : Answer}
    (ha : answer s body = some a) (id : ℕ) (tried : Bool) :
    (∃ copy, clone (reply id tried a) = some copy ∧
      (Exact (diagnosticsOf a) → answered id tried copy = compacted a) ∧
      (¬ Exact (diagnosticsOf a) → answered id tried copy = .error protocolError)) ∧
    (∀ metadata r, s.metadata = some metadata → a = .ok r → ∀ name,
      (r.headers.lookup name).getD [] =
        (metadata.headers.filter fun h => AsciiText.lower h.1 == name).map (·.2)) ∧
    ∀ parseUrl o e, Prepares parseUrl o e → ∃ copy, clone (reply id tried (.error e)) = some copy ∧
      (Exact e.diagnostics → answered id tried copy = .error e) ∧
      (¬ Exact e.diagnostics → answered id tried copy = .error protocolError) := by
  have h := run_reportable hc hes hrun
  refine ⟨answered_carried (answer_sendable h ha) id tried, ?_,
    fun parseUrl o e he => answered_carried (a := .error e) he.valid id tried⟩
  rintro metadata r hmetadata rfl name
  unfold answer at ha
  split at ha
  · cases ha
  · obtain ⟨r', hr, heq⟩ := Option.map_eq_some_iff.mp ha
    cases heq
    unfold buffered at hr
    rw [hmetadata] at hr
    split at hr
    · next metadata' d hm hterminal =>
      cases hm
      cases hr
      exact lookup_groupHeaders metadata.headers name
    · cases hr
  · cases ha

def cookieCall : Call :=
  ⟨.request, .connection, "r1", 0, false, "chrome", some "chrome", false, 8, 1024⟩

def cookieMetadata : ResponseMetadata :=
  ⟨"r1", 200, [("Set-Cookie", "a=1"), ("set-cookie", "b=2")],
    { initialDiagnostics "r1" 0 "chrome" with
      phase := .body
      delivery := .responseStarted
      totalMs := 1 }, none⟩

def cookieFinal : Diagnostics :=
  { cookieMetadata.diagnostics with
    phase := .complete
    totalMs := 2
    responseBytes := 2 }

def cookieRun : List Event :=
  [⟨⟨0, 0⟩, .dispatch 0⟩, ⟨⟨1, 0⟩, .respond ⟨200, some "application/vnd.ja3proxy", true⟩⟩,
    ⟨⟨1, 0⟩, .frame (some (.metadata (.accepted cookieMetadata)))⟩,
    ⟨⟨1, 0⟩, .handOut ⟨"", 0⟩⟩, ⟨⟨2, 0⟩, .frame (some (.data [104, 105]))⟩, ⟨⟨2, 0⟩, .take .kept⟩,
    ⟨⟨2, 0⟩, .frame (some (.complete (.accepted cookieFinal)))⟩, ⟨⟨2, 0⟩, .frame none⟩,
    ⟨⟨2, 0⟩, .finishRead true⟩]

def cookieBody : ByteView := ⟨[104, 105], 0, 2, false⟩

def cookieResponse : BufferedResponse :=
  ⟨200, [("set-cookie", ["a=1", "b=2"])], cookieBody, 2, cookieFinal⟩

def lateOptions : SdkRequest.Options :=
  { SdkRequest.plainOptions with contextId := some "c1", connection := none }

def lateCall : Call := { cookieCall with target := .context "c1", tlsProfile := "unknown" }

def lateError : SdkError :=
  .new .invalidRequest (initialDiagnostics "r1" 0 "unknown") false none

theorem late_refused :
    ∃ checked, SdkRequest.checkOptions (fun _ => some SdkRequest.plainUrl) 1024 none lateOptions =
        .ok checked ∧
      SdkRequest.describe (fun _ => some SdkRequest.plainUrl) SdkRequest.plainStringify
        (ServiceCapabilities.capabilities ProfileRegistry.smallRegistry ServiceConfig.sampleConfig)
        none lateOptions checked (initialDiagnostics "r1" 0 "unknown") 86400000 0 =
          .error lateError := by
  refine ⟨SdkRequest.plainChecked, ?_, ?_⟩ <;> decide +kernel

/-- A response with two fields of one name, and an error of the checks before the call. -/
theorem reply_arrives_cookies :
    (∃ s, (machine cookieCall).run (.initial cookieCall) cookieRun = some s ∧
      ((∃ copy, clone (reply 7 true (.ok cookieResponse)) = some copy ∧
        (Exact cookieFinal → answered 7 true copy = compacted (.ok cookieResponse)) ∧
        (¬ Exact cookieFinal → answered 7 true copy = .error protocolError)) ∧
      ∀ metadata r, s.metadata = some metadata → (.ok cookieResponse : Answer) = .ok r →
        ∀ name, (r.headers.lookup name).getD [] =
          (metadata.headers.filter fun h => AsciiText.lower h.1 == name).map (·.2))) ∧
    ∃ copy, clone (reply 7 false (.error lateError)) = some copy ∧
      answered 7 false copy = .error lateError := by
  constructor
  · have hends : (((machine cookieCall).run (.initial cookieCall) cookieRun).any fun s =>
        answer s cookieBody == some (.ok cookieResponse)) = true := by decide +kernel
    obtain ⟨s, hs, ha⟩ := (Option.any_eq_true _ _).mp hends
    have hall := reply_arrives (c := cookieCall) (by rintro id ⟨⟩) (fun ev hev e he => by
      simp only [cookieRun, List.mem_cons, List.not_mem_nil, or_false] at hev
      obtain rfl | rfl | rfl | rfl | rfl | rfl | rfl | rfl | rfl := hev <;> cases he)
      hs (beq_iff_eq.mp ha) 7 true
    exact ⟨s, hs, hall.1, hall.2.1⟩
  · obtain ⟨checked, hchecked, hrefused⟩ := late_refused
    have hprepares : Prepares _ lateOptions lateError :=
      .capabilities (valid_initial "r1" 0 "unknown") hrefused
    have hraised : ((machine lateCall).run (.initial lateCall)
        [⟨⟨0, 0⟩, .raise (.sdk lateError)⟩]).any
          (fun s => answer s cookieBody == some (.error lateError)) = true := by decide +kernel
    obtain ⟨s, hs, ha⟩ := (Option.any_eq_true _ _).mp hraised
    obtain ⟨copy, hcopy, hexact, -⟩ := (reply_arrives (checked_of_options hchecked rfl)
      (fun ev hev => List.mem_singleton.mp hev ▸ hprepares.proper ⟨0, 0⟩) hs
      (beq_iff_eq.mp ha) 7 false).1
    refine ⟨copy, hcopy, hexact ?_⟩
    constructor <;> simp [lateError, diagnosticsOf, SdkError.new, initialDiagnostics]

end SyncReplies
