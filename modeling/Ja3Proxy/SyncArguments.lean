import Ja3Proxy.ClonedValues
import Ja3Proxy.SdkRequest

/-! The checks of `sync/ipc.ts`. The synchronous client makes checked records out of the
arguments of its caller and posts them; the worker applies the same checks to the copy. Arrays
have no holes. -/
namespace SyncArguments

open ClonedValues ExceptRules SdkErrors
open ContextService (BrowserIdentity)
open SafeIntegers (maxSafe)
open SdkRequest (ConnectionSpec Egress Url)

/-- `new URL(text)`, whether `new Headers(pairs)` succeeds, and the generated validators. -/
structure Platform where
  parseUrl : String → Option Url
  acceptsHeaders : List (String × String) → Bool
  validateWire : String → Value → Bool

def MAX_TIMEOUT_MS : ℕ := 2147483647
def MAX_METADATA_BYTES : ℕ := 1048576

def invalid : SdkError := localError .invalidRequest (some .invalidInput)
def bodyTooLarge : SdkError := localError .bodyTooLarge (some .bufferLimit)
def protocolError : SdkError := localError .protocolError none

def isUndefined : Value → Bool
  | .undefined => true
  | _ => false

def isString (value : Value) (expected : String) : Bool :=
  match value with
  | .string s => s == expected
  | _ => false

def isZero : Value → Bool
  | .number q => q == 0
  | _ => false

def given {α : Type} (value : Value) (check : Value → Except SdkError α) :
    Except SdkError (Option α) :=
  if isUndefined value then .ok none else (check value).map some

def object (value : Value) : Except SdkError Fields :=
  match fieldsOf value with
  | some fields => .ok fields
  | none => .error invalid

def keys (fields : Fields) (allowed : List String) : Except SdkError Unit :=
  rejectIf (!fields.all fun f => allowed.contains f.1) invalid

def text (max : ℕ) (value : Value) : Except SdkError String :=
  match value with
  | .string s => if s == "" || Nat.blt max (codeUnits s) then .error invalid else .ok s
  | _ => .error invalid

def integer (fallback maximum : ℕ) (value : Value) : Except SdkError ℕ :=
  match if isUndefined value then .number fallback else value with
  | .number q =>
    if isSafeInteger q && 0 < q && q ≤ maximum then .ok q.num.toNat else .error invalid
  | _ => .error invalid

def attempt (value : Value) : Except SdkError ℕ :=
  match value with
  | .number q => if isSafeInteger q && 0 ≤ q then .ok q.num.toNat else .error invalid
  | _ => .error invalid

def flag (value : Value) : Except SdkError Bool :=
  match value with
  | .boolean b => .ok b
  | _ => .error invalid

def urlText (value : Value) : Except SdkError String :=
  match value with
  | .url href => .ok href
  | value => text MAX_METADATA_BYTES value

def url (p : Platform) (value : Value) : Except SdkError String :=
  (urlText value).bind fun source =>
  match p.parseUrl source with
  | none => .error invalid
  | some parsed =>
    (rejectIf (!(["http:", "https:"].contains parsed.protocol) || parsed.username != "" ||
      parsed.password != "") invalid).bind fun _ => .ok parsed.href

def identity (value : Value) : Except SdkError BrowserIdentity :=
  (object value).bind fun input =>
  (keys input ["tlsProfile", "emulateHeaders", "userAgent"]).bind fun _ =>
  (flag (input.read "emulateHeaders")).bind fun emulateHeaders =>
  (text 64 (input.read "tlsProfile")).bind fun tlsProfile =>
  (given (input.read "userAgent") (text 8192)).bind fun userAgent =>
  .ok ⟨tlsProfile, emulateHeaders, userAgent⟩

def connection (value : Value) : Except SdkError ConnectionSpec :=
  (object value).bind fun input =>
  (keys input ["egress", "identity"]).bind fun _ =>
  (object (input.read "egress")).bind fun egress =>
  (keys egress ["mode", "url"]).bind fun _ =>
  if isString (egress.read "mode") "direct" && isUndefined (egress.read "url") then
    (identity (input.read "identity")).bind fun identity => .ok ⟨.direct, identity⟩
  else
    (rejectIf (!isString (egress.read "mode") "proxy") invalid).bind fun _ =>
    (text 8192 (egress.read "url")).bind fun url =>
    (identity (input.read "identity")).bind fun identity => .ok ⟨.proxy url, identity⟩

def headerPair : Value → Except SdkError (String × String)
  | .array [.string name, .string value] => .ok (name, value)
  | _ => .error invalid

def headerField : String × Value → Except SdkError (String × String)
  | (name, .string value) => .ok (name, value)
  | _ => .error invalid

def headerEntries (value : Value) : Except SdkError (List (String × String)) :=
  match value with
  | .headers entries => .ok entries
  | .array items => items.mapM headerPair
  | value => (object value).bind fun fields => fields.mapM headerField

def headers (p : Platform) (value : Value) : Except SdkError (List (String × String)) :=
  (headerEntries value).bind fun pairs =>
  (rejectIf (Nat.blt 4096 pairs.length ||
    Nat.blt MAX_METADATA_BYTES (ContextHandlers.headerBytes pairs)) invalid).bind fun _ =>
  (rejectIf (!p.acceptsHeaders pairs) invalid).bind fun _ => .ok pairs

inductive Body where
  | null
  | text (s : String)
  | bytes (view : ByteView)
  deriving DecidableEq, Repr

def body (value : Value) : Except SdkError Body :=
  match value with
  | .null => .ok .null
  | .string s => .ok (.text s)
  | .bytes view => .ok (.bytes view)
  | _ => .error invalid

def Body.byteLength : Body → ℕ
  | .null => 0
  | .text s => s.utf8ByteSize
  | .bytes view => view.byteLength

def compactBytes (view : ByteView) : ByteView := if view.compact then view else view.copy

def Body.compacted : Body → Body
  | .bytes view => .bytes (compactBytes view)
  | body => body

def optionalBytes (body : Option Body) : ℕ := (body.map Body.byteLength).getD 0

structure SessionRequest where
  url : String
  method : String
  headers : Option (List (String × String))
  body : Option Body
  timeoutMs : Option ℕ
  maxResponseBytes : Option ℕ
  attempt : Option ℕ
  requestId : Option String
  deriving DecidableEq, Repr

def sessionRequest (p : Platform) (maxBytes : ℕ) (value : Value) : Except SdkError SessionRequest :=
  (object value).bind fun input =>
  (keys input ["url", "method", "headers", "body", "timeoutMs", "maxResponseBytes", "attempt",
    "requestId"]).bind fun _ =>
  (given (input.read "body") body).bind fun body =>
  (rejectIf (Nat.blt maxBytes (optionalBytes body)) bodyTooLarge).bind fun _ =>
  (given (input.read "attempt") attempt).bind fun attempt =>
  (given (input.read "headers") (headers p)).bind fun convertedHeaders =>
  (url p (input.read "url")).bind fun url =>
  (text 64 (input.read "method")).bind fun method =>
  (given (input.read "timeoutMs") (integer 1 MAX_TIMEOUT_MS)).bind fun timeoutMs =>
  (given (input.read "maxResponseBytes") (integer 1 maxSafe)).bind fun maxResponseBytes =>
  (given (input.read "requestId") (text 128)).bind fun requestId =>
  .ok ⟨url, method, convertedHeaders, body.map Body.compacted, timeoutMs, maxResponseBytes, attempt,
    requestId⟩

inductive Target where
  | connection (spec : ConnectionSpec)
  | contextId (id : String)
  deriving DecidableEq, Repr

structure Request where
  common : SessionRequest
  partition : String
  target : Target
  deriving DecidableEq, Repr

def request (p : Platform) (maxBytes : ℕ) (value : Value) : Except SdkError Request :=
  (object value).bind fun input =>
  let rest := input.filter fun f => !(["partition", "connection", "contextId"].contains f.1)
  let spec := input.read "connection"
  let contextId := input.read "contextId"
  (sessionRequest p maxBytes (literal rest)).bind fun common =>
  (text 1024 (input.read "partition")).bind fun partition =>
  if !isUndefined spec && isUndefined contextId then
    (connection spec).bind fun spec => .ok ⟨common, partition, .connection spec⟩
  else if !isUndefined contextId && isUndefined spec then
    (text 256 contextId).bind fun id => .ok ⟨common, partition, .contextId id⟩
  else .error invalid

inductive CookieMode where
  | managed
  | external
  deriving DecidableEq, Repr

structure SessionOptions where
  partition : String
  connection : ConnectionSpec
  cookieMode : CookieMode
  allowedOrigins : Option (List String)
  ttlMs : Option ℕ
  timeoutMs : Option ℕ
  maxResponseBytes : Option ℕ
  deriving DecidableEq, Repr

def origins (p : Platform) (value : Value) : Except SdkError (List String) :=
  match value with
  | .array items =>
    (rejectIf (Nat.blt 4096 items.length) invalid).bind fun _ => items.mapM (url p)
  | _ => .error invalid

def sessionOptions (p : Platform) (value : Value) : Except SdkError SessionOptions :=
  (object value).bind fun input =>
  (keys input ["partition", "connection", "cookieMode", "allowedOrigins", "ttlMs", "timeoutMs",
    "maxResponseBytes"]).bind fun _ =>
  (given (input.read "allowedOrigins") (origins p)).bind fun allowedOrigins =>
  (text 1024 (input.read "partition")).bind fun partition =>
  (connection (input.read "connection")).bind fun connection =>
  (given (input.read "ttlMs") (integer 1 MAX_TIMEOUT_MS)).bind fun ttlMs =>
  (given (input.read "timeoutMs") (integer 1 MAX_TIMEOUT_MS)).bind fun timeoutMs =>
  (given (input.read "maxResponseBytes") (integer 1 maxSafe)).bind fun maxResponseBytes =>
  if isString (input.read "cookieMode") "managed" &&
      allowedOrigins.any fun origins => !origins.isEmpty then
    .ok ⟨partition, connection, .managed, allowedOrigins, ttlMs, timeoutMs, maxResponseBytes⟩
  else
    (rejectIf (!isString (input.read "cookieMode") "external") invalid).bind fun _ =>
    .ok ⟨partition, connection, .external, allowedOrigins, ttlMs, timeoutMs, maxResponseBytes⟩

structure CloseOptions where
  drain : Option Bool
  timeoutMs : ℕ
  deriving DecidableEq, Repr

structure Limits where
  maxConcurrent : Option ℕ
  maxConcurrentPerPartition : Option ℕ
  maxQueued : Option ℕ
  maxQueuedPerPartition : Option ℕ
  maxBufferedBytes : Option ℕ
  deriving DecidableEq, Repr

structure ClientOptions where
  baseUrl : String
  token : String
  controlTimeoutMs : Option ℕ
  defaultTimeoutMs : Option ℕ
  maxResponseBytes : Option ℕ
  capabilitiesTtlMs : Option ℕ
  limits : Option Limits
  deriving DecidableEq, Repr

structure BridgeConfig where
  client : ClientOptions
  startupTimeoutMs : ℕ
  operationTimeoutMs : ℕ
  maxRequestBytes : ℕ
  maxBatchRequests : ℕ
  maxBatchBytes : ℕ
  maxBatchConcurrency : ℕ
  deriving DecidableEq, Repr

def orZero (maximum : ℕ) (value : Value) : Except SdkError ℕ :=
  if isZero value then .ok 0 else integer 1 maximum value

def limits (value : Value) : Except SdkError Limits :=
  (object value).bind fun input =>
  (keys input ["maxConcurrent", "maxConcurrentPerPartition", "maxQueued", "maxQueuedPerPartition",
    "maxBufferedBytes"]).bind fun _ =>
  (given (input.read "maxConcurrent") (integer 1 maxSafe)).bind fun maxConcurrent =>
  (given (input.read "maxConcurrentPerPartition") (integer 1 maxSafe)).bind
    fun maxConcurrentPerPartition =>
  (given (input.read "maxQueued") (orZero maxSafe)).bind fun maxQueued =>
  (given (input.read "maxQueuedPerPartition") (orZero maxSafe)).bind
    fun maxQueuedPerPartition =>
  (given (input.read "maxBufferedBytes") (integer 1 maxSafe)).bind fun maxBufferedBytes =>
  .ok ⟨maxConcurrent, maxConcurrentPerPartition, maxQueued, maxQueuedPerPartition, maxBufferedBytes⟩

def config (p : Platform) (value : Value) : Except SdkError BridgeConfig :=
  (object value).bind fun input =>
  (keys input ["baseUrl", "token", "limits", "controlTimeoutMs", "capabilitiesTtlMs",
    "defaultTimeoutMs", "maxResponseBytes", "startupTimeoutMs", "operationTimeoutMs",
    "maxRequestBytes", "maxBatchRequests", "maxBatchBytes", "maxBatchConcurrency"]).bind fun _ =>
  (url p (input.read "baseUrl")).bind fun baseUrl =>
  (text 16384 (input.read "token")).bind fun token =>
  (given (input.read "controlTimeoutMs") (integer 1 MAX_TIMEOUT_MS)).bind fun controlTimeoutMs =>
  (given (input.read "defaultTimeoutMs") (integer 1 MAX_TIMEOUT_MS)).bind fun defaultTimeoutMs =>
  (given (input.read "maxResponseBytes") (integer 1 maxSafe)).bind fun maxResponseBytes =>
  (given (input.read "capabilitiesTtlMs") (orZero MAX_TIMEOUT_MS)).bind fun capabilitiesTtlMs =>
  (given (input.read "limits") limits).bind fun limits =>
  (integer 10000 MAX_TIMEOUT_MS (input.read "startupTimeoutMs")).bind fun startupTimeoutMs =>
  (integer 60000 MAX_TIMEOUT_MS (input.read "operationTimeoutMs")).bind fun operationTimeoutMs =>
  (integer 16777216 maxSafe (input.read "maxRequestBytes")).bind fun maxRequestBytes =>
  (integer 128 4096 (input.read "maxBatchRequests")).bind fun maxBatchRequests =>
  (integer 16777216 (maxSafe / 2) (input.read "maxBatchBytes")).bind fun maxBatchBytes =>
  (integer 8 64 (input.read "maxBatchConcurrency")).bind fun maxBatchConcurrency =>
  .ok ⟨⟨baseUrl, token, controlTimeoutMs, defaultTimeoutMs, maxResponseBytes, capabilitiesTtlMs,
    limits⟩, startupTimeoutMs, operationTimeoutMs, maxRequestBytes, maxBatchRequests, maxBatchBytes,
    maxBatchConcurrency⟩

/-- `{ ...base, ...extra }` -/
def spread (base extra : Fields) : Fields :=
  (base.filter fun f => !(extra.map (·.1)).contains f.1) ++ extra

/-- What the worker makes of the configuration that it was started with. -/
def workerConfig (p : Platform) (value : Value) : Except SdkError BridgeConfig :=
  (object value).bind fun raw =>
  (object (raw.read "client")).bind fun client =>
  config p (literal (spread client
    [("startupTimeoutMs", raw.read "startupTimeoutMs"),
      ("operationTimeoutMs", raw.read "operationTimeoutMs"),
      ("maxRequestBytes", raw.read "maxRequestBytes"),
      ("maxBatchRequests", raw.read "maxBatchRequests"),
      ("maxBatchBytes", raw.read "maxBatchBytes"),
      ("maxBatchConcurrency", raw.read "maxBatchConcurrency")]))

def naturalValue (n : ℕ) : Value := .number n

def identityValue (i : BrowserIdentity) : Value :=
  literal (present [("tlsProfile", some (.string i.tlsProfile)),
    ("emulateHeaders", some (.boolean i.emulateHeaders)), ("userAgent", i.userAgent.map .string)])

def egressValue : Egress → Value
  | .proxy url => literal [("mode", .string "proxy"), ("url", .string url)]
  | _ => literal [("mode", .string "direct")]

def connectionValue (spec : ConnectionSpec) : Value :=
  literal [("egress", egressValue spec.egress), ("identity", identityValue spec.identity)]

def headersValue (pairs : List (String × String)) : Value :=
  .array (pairs.map fun h => .array [.string h.1, .string h.2])

def Body.value : Body → Value
  | .null => .null
  | .text s => .string s
  | .bytes view => .bytes view

def SessionRequest.entries (r : SessionRequest) : List (String × Option Value) :=
  [("url", some (.string r.url)), ("method", some (.string r.method)),
    ("headers", r.headers.map headersValue), ("body", r.body.map Body.value),
    ("timeoutMs", r.timeoutMs.map naturalValue),
    ("maxResponseBytes", r.maxResponseBytes.map naturalValue),
    ("attempt", r.attempt.map naturalValue), ("requestId", r.requestId.map .string)]

def SessionRequest.value (r : SessionRequest) : Value := literal (present r.entries)

def Target.entry : Target → String × Option Value
  | .connection spec => ("connection", some (connectionValue spec))
  | .contextId id => ("contextId", some (.string id))

def Request.value (r : Request) : Value :=
  literal
    (present (r.common.entries ++ [("partition", some (.string r.partition)), r.target.entry]))

def CookieMode.name : CookieMode → String
  | .managed => "managed"
  | .external => "external"

def textsValue (texts : List String) : Value := .array (texts.map .string)

def SessionOptions.value (o : SessionOptions) : Value :=
  literal (present [("partition", some (.string o.partition)),
    ("connection", some (connectionValue o.connection)), ("ttlMs", o.ttlMs.map naturalValue),
    ("timeoutMs", o.timeoutMs.map naturalValue),
    ("maxResponseBytes", o.maxResponseBytes.map naturalValue),
    ("cookieMode", some (.string o.cookieMode.name)),
    ("allowedOrigins", o.allowedOrigins.map textsValue)])

def CloseOptions.value (o : CloseOptions) : Value :=
  literal (present [("drain", o.drain.map .boolean),
    ("timeoutMs", some (naturalValue o.timeoutMs))])

def Limits.value (l : Limits) : Value :=
  literal (present [("maxConcurrent", l.maxConcurrent.map naturalValue),
    ("maxConcurrentPerPartition", l.maxConcurrentPerPartition.map naturalValue),
    ("maxQueued", l.maxQueued.map naturalValue),
    ("maxQueuedPerPartition", l.maxQueuedPerPartition.map naturalValue),
    ("maxBufferedBytes", l.maxBufferedBytes.map naturalValue)])

def ClientOptions.entries (o : ClientOptions) : List (String × Option Value) :=
  [("baseUrl", some (.string o.baseUrl)), ("token", some (.string o.token)),
    ("controlTimeoutMs", o.controlTimeoutMs.map naturalValue),
    ("defaultTimeoutMs", o.defaultTimeoutMs.map naturalValue),
    ("maxResponseBytes", o.maxResponseBytes.map naturalValue),
    ("capabilitiesTtlMs", o.capabilitiesTtlMs.map naturalValue),
    ("limits", o.limits.map Limits.value)]

def BridgeConfig.settings (c : BridgeConfig) : Fields :=
  [("startupTimeoutMs", naturalValue c.startupTimeoutMs),
    ("operationTimeoutMs", naturalValue c.operationTimeoutMs),
    ("maxRequestBytes", naturalValue c.maxRequestBytes),
    ("maxBatchRequests", naturalValue c.maxBatchRequests),
    ("maxBatchBytes", naturalValue c.maxBatchBytes),
    ("maxBatchConcurrency", naturalValue c.maxBatchConcurrency)]

def BridgeConfig.value (c : BridgeConfig) : Value :=
  literal (("client", literal (present c.client.entries)) :: c.settings)

def Rereads {α : Type} (check : Value → Except SdkError α) (write : α → Value) : Prop :=
  ∀ v a, check v = .ok a → check (write a) = .ok a

/-- What URL parsing promises: the serialization of a parsed URL parses to that URL. -/
structure Platform.Documented (p : Platform) : Prop where
  reparse : ∀ s u, p.parseUrl s = some u → ["http:", "https:"].contains u.protocol = true →
    p.parseUrl u.href = some u
  blank : p.parseUrl "" = none

def fits (href : String) : Bool := !Nat.blt MAX_METADATA_BYTES (codeUnits href)

variable {p : Platform} {v : Value}

@[simp] theorem object_literal (fields : Fields) : object (literal fields) = .ok fields := by
  simp [object]

theorem keys_present {entries : List (String × Option Value)} {allowed : List String}
    (h : (entries.all fun e => allowed.contains e.1) = true) :
    keys (present entries) allowed = .ok () := by
  have hall : ((present entries).all fun f => allowed.contains f.1) = true := all_present h
  simp only [keys, hall, Bool.not_true, rejectIf, Bool.false_eq_true, if_false]

@[simp] theorem isUndefined_string (s : String) : isUndefined (.string s) = false := rfl
@[simp] theorem isUndefined_natural (n : ℕ) : isUndefined (naturalValue n) = false := rfl

theorem text_reread (max : ℕ) : Rereads (text max) .string := by
  intro v s h
  unfold text at h
  split at h
  · next t =>
    split at h
    · cases h
    · next hlen =>
      cases h
      simp [text, hlen]
  · cases h

theorem integer_natural {fallback maximum n : ℕ} (h : integer fallback maximum v = .ok n)
    (fallback' : ℕ) : integer fallback' maximum (naturalValue n) = .ok n := by
  unfold integer at h
  split at h
  · next q hq =>
    split at h
    · next hbounds =>
      cases h
      simp only [Bool.and_eq_true, decide_eq_true_eq] at hbounds
      have hcast := toNat_of_safe hbounds.1.1 (Rat.le_of_lt hbounds.1.2)
      simp [integer, naturalValue, isUndefined, hcast, hbounds]
    · cases h
  · cases h

theorem integer_ok {fallback maximum n : ℕ} (h : integer fallback maximum v = .ok n) :
    0 < n ∧ n ≤ maximum ∧ n ≤ maxSafe := by
  unfold integer at h
  split at h
  · next q hq =>
    split at h
    · next hbounds =>
      cases h
      simp only [Bool.and_eq_true, decide_eq_true_eq] at hbounds
      obtain ⟨⟨hsafe, hpos⟩, hmax⟩ := hbounds
      have hcast := toNat_of_safe hsafe (Rat.le_of_lt hpos)
      rw [← hcast] at hsafe hpos hmax
      exact ⟨Rat.natCast_pos.mp hpos, Rat.natCast_le_natCast.mp hmax,
        isSafeInteger_cast _ |>.mp hsafe⟩
    · cases h
  · cases h

theorem integer_bounded {maximum n : ℕ} (hpos : 0 < n) (hmax : n ≤ maximum)
    (hsafe : n ≤ maxSafe) (fallback : ℕ) :
    integer fallback maximum (naturalValue n) = .ok n := by
  have hpos' : (0 : ℚ) < n := Rat.natCast_pos.mpr hpos
  have hmax' : (n : ℚ) ≤ maximum := Rat.natCast_le_natCast.mpr hmax
  have hsafe' : isSafeInteger n = true := isSafeInteger_cast n |>.mpr hsafe
  simp [integer, naturalValue, isUndefined, hpos', hmax', hsafe']

theorem integer_reread (fallback maximum : ℕ) : Rereads (integer fallback maximum) naturalValue :=
  fun _ _ h => integer_natural h fallback

theorem attempt_reread : Rereads attempt naturalValue := by
  intro v n h
  unfold attempt at h
  split at h
  · next q =>
    split at h
    · next hbounds =>
      cases h
      simp only [Bool.and_eq_true, decide_eq_true_eq] at hbounds
      simp [attempt, naturalValue, toNat_of_safe hbounds.1 hbounds.2, hbounds]
    · cases h
  · cases h

theorem orZero_reread (maximum : ℕ) : Rereads (orZero maximum) naturalValue := by
  intro v n h
  unfold orZero at h
  split at h
  · cases h
    rfl
  · have hn := integer_natural h 1
    by_cases hzero : n = 0
    · simp [orZero, isZero, naturalValue, hzero]
    · have hnonzero : isZero (naturalValue n) = false := by
        simpa [isZero, naturalValue] using hzero
      simp [orZero, hnonzero, hn]

theorem flag_reread : Rereads flag .boolean := by
  intro v b h
  cases v <;> cases h
  rfl

theorem given_reread {α : Type} {check : Value → Except SdkError α} {write : α → Value}
    (hcheck : Rereads check write) (hwrite : ∀ a, isUndefined (write a) = false) {o : Option α}
    (h : given v check = .ok o) : given ((o.map write).getD .undefined) check = .ok o := by
  unfold given at h
  split at h
  · cases h
    rfl
  · cases hv : check v with
    | error e =>
      rw [hv] at h
      cases h
    | ok a =>
      rw [hv] at h
      cases h
      simp [given, hwrite, hcheck v a hv, Except.map]

theorem url_reread (hp : p.Documented) {href : String} (h : url p v = .ok href) :
    url p (.string href) = if fits href then .ok href else .error invalid := by
  simp only [url, bind_ok] at h
  obtain ⟨source, -, h⟩ := h
  split at h
  · cases h
  · next u hu =>
    obtain ⟨_, hscheme, h⟩ := bind_ok.mp h
    cases h
    have hprotocol : ["http:", "https:"].contains u.protocol = true := by
      have hkept := rejectIf_ok.mp hscheme
      simp only [Bool.or_eq_false_iff, Bool.not_eq_false'] at hkept
      exact hkept.1.1
    have hparse := hp.reparse source u hu hprotocol
    have hblank : u.href ≠ "" := by
      intro heq
      rw [heq, hp.blank] at hparse
      cases hparse
    by_cases hfits : fits u.href = true
    · have htext : urlText (.string u.href) = .ok u.href := by
        simp [urlText, text, hblank, show Nat.blt MAX_METADATA_BYTES (codeUnits u.href) = false by
          simpa [fits] using hfits]
      simp only [url, htext, hparse, hscheme, hfits, Except.bind, if_true]
    · have htext : urlText (.string u.href) = .error invalid := by
        simp [urlText, text, show Nat.blt MAX_METADATA_BYTES (codeUnits u.href) = true by
          simpa [fits] using hfits]
      simp only [url, htext, hfits, Except.bind, Bool.false_eq_true, if_false]

theorem identity_reread : Rereads identity identityValue := by
  intro v i h
  simp only [identity, bind_ok] at h
  obtain ⟨input, -, _, -, emulate, hemulate, profile, hprofile, agent, hagent, h⟩ := h
  cases h
  have hagent' := given_reread (text_reread 8192) isUndefined_string hagent
  simp [identity, identityValue, Except.bind, keys_present, flag_reread _ _ hemulate,
    text_reread _ _ _ hprofile, hagent']

theorem connection_reread : Rereads connection connectionValue := by
  intro v spec h
  simp only [connection, bind_ok] at h
  obtain ⟨input, -, _, -, egress, -, _, -, h⟩ := h
  split at h
  · obtain ⟨i, hi, h⟩ := bind_ok.mp h
    cases h
    simp [connection, connectionValue, egressValue, Except.bind, keys, rejectIf, isString,
      isUndefined, identity_reread _ _ hi]
  · obtain ⟨_, -, h⟩ := bind_ok.mp h
    obtain ⟨url, hurl, h⟩ := bind_ok.mp h
    obtain ⟨i, hi, h⟩ := bind_ok.mp h
    cases h
    simp [connection, connectionValue, egressValue, Except.bind, keys, rejectIf, isString,
      text_reread _ _ _ hurl, identity_reread _ _ hi]

theorem mapM_headerPair (pairs : List (String × String)) :
    (pairs.map fun h => Value.array [.string h.1, .string h.2]).mapM headerPair = .ok pairs := by
  have h : (pairs.map fun h => Value.array [.string h.1, .string h.2]).mapM headerPair =
      if pairs.all fun _ => true then .ok pairs else .error invalid := mapM_written fun _ _ => rfl
  simpa using h

theorem headers_reread (p : Platform) : Rereads (headers p) headersValue := by
  intro v pairs h
  simp only [headers, bind_ok] at h
  obtain ⟨pairs', -, _, hsize, _, haccepted, h⟩ := h
  cases h
  have hentries : headerEntries (headersValue pairs) = .ok pairs := mapM_headerPair pairs
  simp only [headers, hentries, Except.bind, hsize, haccepted]

@[simp] theorem compact_compactBytes (view : ByteView) : (compactBytes view).compact = true := by
  unfold compactBytes
  by_cases h : view.compact = true
  · rw [if_pos h]
    exact h
  · rw [if_neg h]
    simp [ByteView.compact, ByteView.copy, ByteView.byteLength]

@[simp] theorem content_compactBytes (view : ByteView) :
    (compactBytes view).content = view.content := by
  unfold compactBytes
  split <;> rfl

@[simp] theorem compacted_compacted (b : Body) : b.compacted.compacted = b.compacted := by
  cases b with
  | bytes view =>
    show Body.bytes (compactBytes (compactBytes view)) = .bytes (compactBytes view)
    rw [compactBytes, if_pos (compact_compactBytes view)]
  | _ => rfl

@[simp] theorem byteLength_compacted (b : Body) : b.compacted.byteLength = b.byteLength := by
  cases b with
  | bytes view => simp [Body.compacted, Body.byteLength, ByteView.byteLength]
  | _ => rfl

theorem body_value (b : Body) : body b.value = .ok b := by
  cases b <;> rfl

theorem sessionRequest_reread (hp : p.Documented) {maxBytes : ℕ} {r : SessionRequest}
    (h : sessionRequest p maxBytes v = .ok r) :
    sessionRequest p maxBytes r.value = if fits r.url then .ok r else .error invalid := by
  simp only [sessionRequest, bind_ok] at h
  obtain ⟨input, -, _, -, given_body, hbody, _, hsize, attempt, hattempt, pairs, hheaders, href,
    hurl, method, hmethod, timeoutMs, htimeout, maximum, hmaximum, id, hid, h⟩ := h
  cases h
  have hbody' : given (((given_body.map Body.compacted).map Body.value).getD .undefined) body =
      .ok (given_body.map Body.compacted) := by
    cases given_body with
    | none => rfl
    | some b =>
      have hdefined : isUndefined b.compacted.value = false := by cases b <;> rfl
      simp [given, hdefined, body_value, Except.map]
  have hsize' : rejectIf (Nat.blt maxBytes (optionalBytes (given_body.map Body.compacted)))
      bodyTooLarge = .ok () := by
    cases given_body <;> simpa [optionalBytes] using hsize
  have hstable : (given_body.map Body.compacted).map Body.compacted =
      given_body.map Body.compacted := by
    cases given_body <;> simp
  generalize given_body.map Body.compacted = b at hbody' hsize' hstable ⊢
  have hattempt' := given_reread attempt_reread isUndefined_natural hattempt
  have hheaders' := given_reread (headers_reread p) (fun _ => rfl) hheaders
  have htimeout' := given_reread (integer_reread 1 _) isUndefined_natural htimeout
  have hmaximum' := given_reread (integer_reread 1 _) isUndefined_natural hmaximum
  have hid' := given_reread (text_reread 128) isUndefined_string hid
  have hmethod' := text_reread 64 _ _ hmethod
  by_cases hfits : fits href = true
  · simp [sessionRequest, SessionRequest.value, SessionRequest.entries, Except.bind, keys_present,
      hbody', hsize', hstable, hattempt', hheaders', url_reread hp hurl, hfits, hmethod',
      htimeout', hmaximum', hid']
  · simp [sessionRequest, SessionRequest.value, SessionRequest.entries, Except.bind, keys_present,
      hbody', hsize', hattempt', hheaders', url_reread hp hurl, hfits]

theorem request_rest (r : Request) :
    ((present (r.common.entries ++ [("partition", some (.string r.partition)),
      r.target.entry])).filter
      fun f => !(["partition", "connection", "contextId"].contains f.1)) =
        present r.common.entries := by
  rw [filter_present fun name => !(["partition", "connection", "contextId"].contains name)]
  obtain ⟨common, partition, target⟩ := r
  cases target <;> simp [SessionRequest.entries, Target.entry]

theorem request_reread (hp : p.Documented) {maxBytes : ℕ} {r : Request}
    (h : request p maxBytes v = .ok r) :
    request p maxBytes r.value = if fits r.common.url then .ok r else .error invalid := by
  simp only [request, bind_ok] at h
  obtain ⟨input, -, common, hcommon, partition, hpartition, h⟩ := h
  have hcommon' := sessionRequest_reread hp hcommon
  have hpartition' := text_reread 1024 _ _ hpartition
  have hread : ∀ target : Target, request p maxBytes (Request.value ⟨common, partition, target⟩) =
      (if fits common.url then .ok common else .error invalid : Except SdkError SessionRequest).bind
        fun common =>
          match target with
          | .connection spec =>
            (connection (connectionValue spec)).bind fun spec =>
              .ok ⟨common, partition, .connection spec⟩
          | .contextId id => (text 256 (.string id)).bind fun id =>
              .ok ⟨common, partition, .contextId id⟩ := by
    intro target
    have hrest := request_rest ⟨common, partition, target⟩
    rw [request, Request.value, object_literal]
    simp only [Except.bind, hrest]
    rw [show sessionRequest p maxBytes (literal (present common.entries)) = _ from hcommon']
    cases target with
    | connection spec =>
      by_cases hfits : fits common.url = true <;>
        simp [SessionRequest.entries, Target.entry, hfits, hpartition', connectionValue,
          isUndefined, literal]
    | contextId id =>
      by_cases hfits : fits common.url = true <;>
        simp [SessionRequest.entries, Target.entry, hfits, hpartition', isUndefined]
  split at h
  · obtain ⟨spec, hspec, h⟩ := bind_ok.mp h
    cases h
    rw [hread]
    by_cases hfits : fits common.url = true <;>
      simp [hfits, Except.bind, connection_reread _ _ hspec]
  · split at h
    · obtain ⟨id, hid, h⟩ := bind_ok.mp h
      cases h
      rw [hread]
      by_cases hfits : fits common.url = true <;>
        simp [hfits, Except.bind, text_reread 256 _ _ hid]
    · cases h

theorem origins_reread (hp : p.Documented) {hrefs : List String} (h : origins p v = .ok hrefs) :
    origins p (textsValue hrefs) = if hrefs.all fits then .ok hrefs else .error invalid := by
  unfold origins at h
  split at h
  · obtain ⟨_, hcount, h⟩ := bind_ok.mp h
    obtain ⟨hlength, hmem⟩ := mapM_mem h
    rw [← hlength] at hcount
    simp only [origins, textsValue, List.length_map, hcount, Except.bind]
    refine mapM_written fun href hhref => ?_
    obtain ⟨item, -, hitem⟩ := hmem href hhref
    exact url_reread hp hitem
  · cases h

theorem given_origins (hp : p.Documented) {hrefs : Option (List String)}
    (h : given v (origins p) = .ok hrefs) :
    given ((hrefs.map textsValue).getD .undefined) (origins p) =
      if (hrefs.getD []).all fits then .ok hrefs else .error invalid := by
  unfold given at h
  split at h
  · cases h
    rfl
  · cases hv : origins p v with
    | error e =>
      rw [hv] at h
      cases h
    | ok found =>
      rw [hv] at h
      cases h
      have hdefined : isUndefined (textsValue found) = false := rfl
      by_cases hfits : found.all fits = true <;>
        simp [given, hdefined, origins_reread hp hv, hfits, Except.map]

def SessionOptions.urls (o : SessionOptions) : List String := o.allowedOrigins.getD []

theorem sessionOptions_reread (hp : p.Documented) {o : SessionOptions}
    (h : sessionOptions p v = .ok o) :
    sessionOptions p o.value = if o.urls.all fits then .ok o else .error invalid := by
  simp only [sessionOptions, bind_ok] at h
  obtain ⟨input, -, _, -, hrefs, hhrefs, partition, hpartition, spec, hspec, ttlMs, httl, timeoutMs,
    htimeout, maximum, hmaximum, h⟩ := h
  have horigins : given ((hrefs.map textsValue).getD .undefined) (origins p) =
      if (hrefs.getD []).all fits then .ok hrefs else .error invalid :=
    given_origins hp hhrefs
  have httl' := given_reread (integer_reread 1 _) isUndefined_natural httl
  have htimeout' := given_reread (integer_reread 1 _) isUndefined_natural htimeout
  have hmaximum' := given_reread (integer_reread 1 _) isUndefined_natural hmaximum
  have hpartition' := text_reread 1024 _ _ hpartition
  have hspec' := connection_reread _ _ hspec
  split at h
  · next hmanaged =>
    cases h
    simp only [Bool.and_eq_true] at hmanaged
    by_cases hfits : (hrefs.getD []).all fits = true <;>
      simp [sessionOptions, SessionOptions.value, SessionOptions.urls, CookieMode.name, Except.bind,
        keys_present, isString, horigins, hfits, hpartition', hspec', httl', htimeout', hmaximum',
        hmanaged.2]
  · obtain ⟨_, -, h⟩ := bind_ok.mp h
    cases h
    by_cases hfits : (hrefs.getD []).all fits = true <;>
      simp [sessionOptions, SessionOptions.value, SessionOptions.urls, CookieMode.name, Except.bind,
        keys_present, isString, horigins, hfits, hpartition', hspec', httl', htimeout', hmaximum',
        rejectIf]

theorem limits_reread : Rereads limits Limits.value := by
  intro v l h
  simp only [limits, bind_ok] at h
  obtain ⟨input, -, _, -, concurrent, hconcurrent, partition, hpartition, queued, hqueued,
    partitionQueued, hpartitionQueued, buffered, hbuffered, h⟩ := h
  cases h
  have hconcurrent' := given_reread (integer_reread 1 _) isUndefined_natural hconcurrent
  have hpartition' := given_reread (integer_reread 1 _) isUndefined_natural hpartition
  have hqueued' := given_reread (orZero_reread _) isUndefined_natural hqueued
  have hpartitionQueued' := given_reread (orZero_reread _) isUndefined_natural hpartitionQueued
  have hbuffered' := given_reread (integer_reread 1 _) isUndefined_natural hbuffered
  simp [limits, Limits.value, Except.bind, keys_present, hconcurrent', hpartition', hqueued',
    hpartitionQueued', hbuffered']

theorem spread_entries (c : BridgeConfig) :
    spread (present c.client.entries) c.settings =
      present (c.client.entries ++ c.settings.map fun f => (f.1, some f.2)) := by
  have hkept : (present c.client.entries).filter (fun f => !(c.settings.map (·.1)).contains f.1) =
      present c.client.entries := by
    rw [filter_present fun name => !(c.settings.map (·.1)).contains name]
    simp [ClientOptions.entries, BridgeConfig.settings]
  rw [spread, hkept]
  simp [present, List.filterMap_append]

theorem config_reread (hp : p.Documented) {c : BridgeConfig} (h : config p v = .ok c) :
    workerConfig p c.value = if fits c.client.baseUrl then .ok c else .error invalid := by
  simp only [config, bind_ok] at h
  obtain ⟨input, -, _, -, baseUrl, hbase, token, htoken, controlMs, hcontrol, defaultMs, hdefault,
    maximum, hmaximum, ttlMs, httl, l, hl, startup, hstartup, operation, hoperation, requestBytes,
    hrequestBytes, batchRequests, hbatchRequests, batchBytes, hbatchBytes, concurrency,
    hconcurrency, h⟩ := h
  cases h
  have htoken' := text_reread 16384 _ _ htoken
  have hcontrol' := given_reread (integer_reread 1 _) isUndefined_natural hcontrol
  have hdefault' := given_reread (integer_reread 1 _) isUndefined_natural hdefault
  have hmaximum' := given_reread (integer_reread 1 _) isUndefined_natural hmaximum
  have httl' := given_reread (orZero_reread _) isUndefined_natural httl
  have hl' := given_reread limits_reread (fun _ => rfl) hl
  have hstartup' := integer_natural hstartup 10000
  have hoperation' := integer_natural hoperation 60000
  have hrequestBytes' := integer_natural hrequestBytes 16777216
  have hbatchRequests' := integer_natural hbatchRequests 128
  have hbatchBytes' := integer_natural hbatchBytes 16777216
  have hconcurrency' := integer_natural hconcurrency 8
  set c : BridgeConfig := ⟨⟨baseUrl, token, controlMs, defaultMs, maximum, ttlMs, l⟩, startup,
    operation, requestBytes, batchRequests, batchBytes, concurrency⟩ with hc
  have hworker : workerConfig p c.value =
      config p
        (literal (present (c.client.entries ++ c.settings.map fun f => (f.1, some f.2)))) := by
    rw [← spread_entries]
    simp [workerConfig, BridgeConfig.value, BridgeConfig.settings, Except.bind]
  rw [hworker]
  by_cases hfits : fits baseUrl = true <;>
    simp [config, ClientOptions.entries, BridgeConfig.settings, Except.bind, keys_present, hc,
      url_reread hp hbase, hfits, htoken', hcontrol', hdefault', hmaximum', httl', hl', hstartup',
      hoperation', hrequestBytes', hbatchRequests', hbatchBytes', hconcurrency']

@[simp] theorem transferable_null : Transferable .null := rfl
@[simp] theorem transferable_string (s : String) : Transferable (.string s) := rfl
@[simp] theorem transferable_boolean (b : Bool) : Transferable (.boolean b) := rfl
@[simp] theorem transferable_natural (n : ℕ) : Transferable (naturalValue n) := rfl

@[simp] theorem transferable_body (b : Body) : Transferable b.value := by
  cases b <;> rfl

@[simp] theorem transferable_identity (i : BrowserIdentity) : Transferable (identityValue i) := by
  apply transferable_present
  simp

@[simp] theorem transferable_egress (egress : Egress) : Transferable (egressValue egress) := by
  cases egress <;> exact transferable_literal (by simp)

@[simp] theorem transferable_connection (spec : ConnectionSpec) :
    Transferable (connectionValue spec) :=
  transferable_literal (by simp)

@[simp] theorem transferable_headers (pairs : List (String × String)) :
    Transferable (headersValue pairs) := by
  apply transferable_array
  intro v hv
  obtain ⟨h, -, rfl⟩ := List.mem_map.mp hv
  exact transferable_array (by simp)

@[simp] theorem transferable_texts (texts : List String) : Transferable (textsValue texts) :=
  transferable_array (by simp)

theorem transferable_common (r : SessionRequest) :
    ∀ e ∈ r.entries, ∀ v ∈ e.2, Transferable v := by
  simp [SessionRequest.entries]

@[simp] theorem transferable_sessionRequest (r : SessionRequest) : Transferable r.value :=
  transferable_present (transferable_common r)

@[simp] theorem transferable_request (r : Request) : Transferable r.value := by
  apply transferable_present
  intro e he
  rcases List.mem_append.mp he with he | he
  · exact transferable_common r.common e he
  · obtain ⟨common, partition, target⟩ := r
    cases target <;> simp [Target.entry] at he <;> rcases he with rfl | rfl <;> simp

@[simp] theorem transferable_sessionOptions (o : SessionOptions) : Transferable o.value :=
  transferable_present (by simp)

@[simp] theorem transferable_closeOptions (o : CloseOptions) : Transferable o.value := by
  apply transferable_present
  obtain ⟨_ | drain, timeoutMs⟩ := o <;> simp

@[simp] theorem transferable_limits (l : Limits) : Transferable l.value :=
  transferable_present (by simp)

theorem transferable_config (c : BridgeConfig) : Transferable c.value := by
  have hclient : Transferable (literal (present c.client.entries)) :=
    transferable_present (by simp [ClientOptions.entries])
  apply transferable_literal
  simp [BridgeConfig.settings, hclient]

end SyncArguments
