import Mathlib
import Ja3Proxy.ServiceCapabilities

/-! What `executeStream` of the TypeScript SDK checks before it sends a request, and the metadata
that it sends (`client.ts`, with `validateConnection` of `service.ts` and `headersFrom` of
`protocol.ts`). Options of a wrong type that TypeScript excludes are not modelled. -/
namespace SdkRequest

open ExceptRules SdkErrors ServiceCapabilities ServiceConfig
open AsciiText (isToken lower tokenChar upper)
open ContextService (BrowserIdentity)
open FrameReader (Bytes)
open SafeIntegers (maxSafe)
open SdkUpload (Body)

inductive Number where
  | integer (n : ℤ)
  | other
  deriving DecidableEq, Repr

def Number.positive : Number → Bool
  | .integer n => SafeIntegers.positive n
  | .other => false

def Number.nonnegativeInteger : Number → Bool
  | .integer n => SafeIntegers.nonnegativeInteger n
  | .other => false

def Number.value : Number → ℕ
  | .integer n => n.toNat
  | .other => 0

structure Url where
  protocol : String
  username : String
  password : String
  hostname : String
  search : String
  hash : String
  href : String
  deriving DecidableEq, Repr

inductive Egress where
  | direct
  | proxy (url : String)
  | other
  deriving DecidableEq, Repr

structure ConnectionSpec where
  egress : Egress
  identity : BrowserIdentity
  deriving DecidableEq, Repr

/-- `RequestOptions`, with the identifier drawn where none is given. A body that is not one of
the four kinds is `none`. -/
structure Options where
  requestId : String
  attempt : Option Number
  partition : String
  contextId : Option String
  connection : Option ConnectionSpec
  url : String
  method : String
  headers : List (String × String)
  headerOrder : Option String
  body : Option Body
  maxResponseBytes : Option Number
  deriving DecidableEq

abbrev ParseUrl := String → Option Url

def invalidInput (diag : Diagnostics) (usedProxy : Bool) : SdkError :=
  .new .invalidRequest diag usedProxy (some .invalidInput)

def traceHeaders : List String := ["traceparent", "tracestate", "baggage"]

def headersFrom (pairs : List (String × String)) : Option (List (String × String)) :=
  if headerPairs pairs then some (pairs.filter fun h => !traceHeaders.contains (lower h.1))
  else none

/-- The target and the headers of the `try` block. -/
def checkTarget (parseUrl : ParseUrl) (o : Options) : Option (Url × List (String × String)) :=
  match parseUrl o.url with
  | none => none
  | some target =>
    if !(["http:", "https:"].contains target.protocol) || target.username != "" ||
        target.password != "" || target.hash != "" || !isToken o.method then none
    else (headersFrom o.headers).map (target, ·)

structure Checked where
  target : Url
  headers : List (String × String)
  method : String
  body : Body
  maximum : Number
  attempt : Number
  deriving DecidableEq

def Options.attemptValue (o : Options) : Number := o.attempt.getD (.integer 0)

/-- `initialDiagnostics(requestId, attempt, connection?.identity?.tlsProfile ?? 'unknown')` -/
def Options.diag (o : Options) (connection : Option ConnectionSpec) : Diagnostics :=
  initialDiagnostics o.requestId
    (if o.attemptValue.nonnegativeInteger then o.attemptValue.value else 0)
    ((connection.map (·.identity.tlsProfile)).getD "unknown")

def Options.usedProxy (connection : Option ConnectionSpec) : Bool :=
  connection.any fun c => match c.egress with | .proxy _ => true | _ => false

/-- `executeStream` up to its observation. `hint` is the connection of a session. -/
def checkOptions (parseUrl : ParseUrl) (defaultMaximum : ℕ) (hint : Option ConnectionSpec)
    (o : Options) : Except SdkError Checked :=
  let connection := o.connection <|> hint
  let invalid := invalidInput (o.diag connection) (Options.usedProxy connection)
  (rejectIf (!opaqueText o.requestId || !o.attemptValue.nonnegativeInteger) invalid).bind fun _ =>
  (rejectIf (!opaqueText o.partition)
    (localError .invalidRequest (some .invalidInput))).bind fun _ =>
  (rejectIf (o.contextId.isNone == o.connection.isNone || o.contextId.any (!opaqueText ·))
    invalid).bind fun _ =>
  (rejectIf (o.headerOrder.any fun order => order != "caller" && order != "browser")
    invalid).bind fun _ =>
  match checkTarget parseUrl o, o.body with
  | none, _ => .error invalid
  | some _, none => .error invalid
  | some (target, headers), some body =>
    let method := upper o.method
    let maximum := o.maxResponseBytes.getD (.integer defaultMaximum)
    (rejectIf (["GET", "HEAD"].contains method && body ≠ .absent) invalid).bind fun _ =>
    (rejectIf (!maximum.positive) invalid).bind fun _ =>
    .ok ⟨target, headers, method, body, maximum, o.attemptValue⟩

def proxyModes : List String := ["http", "https", "socks4", "socks4a", "socks5", "socks5h"]

/-- The egress mode of a proxy URL, or nothing where the `try` block throws. -/
def proxyMode (parseUrl : ParseUrl) (url : String) : Option String :=
  match parseUrl url with
  | none => none
  | some proxy =>
    let mode := String.ofList proxy.protocol.toList.dropLast
    if !proxyModes.contains mode || proxy.hostname == "" || proxy.hash != "" || proxy.search != ""
    then none else some mode

def validateConnection (parseUrl : ParseUrl) (caps : Capabilities) (spec : ConnectionSpec) :
    Except SdkError Unit :=
  let diag := initialDiagnostics "control" 0 spec.identity.tlsProfile
  let proxied := Options.usedProxy (some spec)
  (rejectIf (caps.resolveProfile spec.identity.tlsProfile).isNone
    (.new .invalidProfile diag proxied none)).bind fun _ =>
  (rejectIf (spec.identity.userAgent.any fun agent =>
      agent.toList.any fun c => c == '\r' || c == '\n' || c == Char.ofNat 0)
    (.new .invalidRequest diag false none)).bind fun _ =>
  match spec.egress with
  | .other => .error (.new .egressRequired diag false none)
  | .direct =>
    rejectIf (!caps.modes.egress.contains "direct") (.new .unsupportedCapability diag false none)
  | .proxy url =>
    match proxyMode parseUrl url with
    | none => .error (.new .invalidRequest diag true none)
    | some mode =>
      rejectIf (!caps.modes.egress.contains mode) (.new .unsupportedCapability diag true none)

/-- `Math.max(1, Math.floor(timeoutMs - elapsed))`, with the time since the start rounded up. -/
def remaining (timeoutMs elapsed : ℕ) : ℕ := max 1 (timeoutMs - elapsed)

structure Fields where
  requestId : String
  partition : String
  connection : Option ConnectionSpec
  contextId : Option String
  url : String
  method : String
  headers : List (String × String)
  browserOrder : Bool
  timeoutMs : ℕ
  maxResponseBytes : ℕ
  attempt : ℕ
  deriving DecidableEq, Repr

abbrev Wire := SdkUpload.Wire Fields

def wire (o : Options) (c : Checked) (timeoutMs elapsed : ℕ) : Wire :=
  c.body.wire {
    requestId := o.requestId
    partition := o.partition
    connection := o.connection
    contextId := if o.connection.isSome then none else o.contextId
    url := c.target.href
    method := c.method
    headers := c.headers
    browserOrder := o.headerOrder == some "browser"
    timeoutMs := remaining timeoutMs elapsed
    maxResponseBytes := c.maximum.value
    attempt := c.attempt.value }

/-- `validateWire('requestMetadata', wire)`: the numbers of a typed record are safe integers. -/
def validateWire (w : Wire) : Bool :=
  Nat.ble w.fields.timeoutMs maxSafe && Nat.ble w.fields.maxResponseBytes maxSafe &&
    Nat.ble w.fields.attempt maxSafe && w.bodyLength.all (Nat.ble · maxSafe)

/-- `executeStream` from the capabilities to the encoder: the metadata and its bytes. The
deadline was made for `timeoutMs`; `diag` says how long the call was queued. -/
def describe (parseUrl : ParseUrl) (stringify : Wire → Bytes) (caps : Capabilities)
    (hint : Option ConnectionSpec) (o : Options) (c : Checked) (diag : Diagnostics)
    (timeoutMs elapsed : ℕ) : Except SdkError (Wire × Bytes) :=
  let connection := o.connection <|> hint
  let usedProxy := Options.usedProxy connection
  let failed := fun code => SdkError.new code diag usedProxy none
  let w := wire o c timeoutMs elapsed
  (match connection with
    | some spec => validateConnection parseUrl caps spec
    | none => .ok ()).bind fun _ =>
  (rejectIf (Nat.blt caps.limits.maxTimeoutMs timeoutMs ||
      Nat.blt caps.limits.maxResponseBytes c.maximum.value ||
      Nat.blt caps.limits.maxHeaders c.headers.length ||
      Nat.blt caps.limits.maxHeaderBytes (ContextHandlers.headerBytes c.headers))
    (failed .invalidRequest)).bind fun _ =>
  (rejectIf (c.body.length.any (Nat.blt caps.limits.maxRequestBytes))
    (failed .bodyTooLarge)).bind fun _ =>
  (rejectIf (!validateWire w) (failed .invalidRequest)).bind fun _ =>
  (rejectIf (Nat.blt caps.framing.maxMetadataBytes (stringify w).length)
    (failed .bodyTooLarge)).bind fun _ =>
  .ok (w, stringify w)

variable {parseUrl : ParseUrl} {stringify : Wire → Bytes} {caps : Capabilities}
  {hint : Option ConnectionSpec} {defaultMaximum : ℕ} {o : Options} {c : Checked}
  {diag : Diagnostics} {timeoutMs elapsed : ℕ} {w : Wire} {json : Bytes}

structure Passed (parseUrl : ParseUrl) (o : Options) (c : Checked) : Prop where
  requestId : opaqueText o.requestId = true
  partition : opaqueText o.partition = true
  exclusive : (o.contextId.isNone == o.connection.isNone) = false
  contextId : ∀ id ∈ o.contextId, opaqueText id = true
  target : parseUrl o.url = some c.target
  method : c.method = upper o.method ∧ isToken o.method = true
  headers : headersFrom o.headers = some c.headers
  body : o.body = some c.body
  bodyless : c.method ∈ ["GET", "HEAD"] → c.body = .absent
  maximum : c.maximum.positive = true
  attempt : c.attempt.nonnegativeInteger = true

theorem checkTarget_some {target : Url} {headers : List (String × String)}
    (h : checkTarget parseUrl o = some (target, headers)) :
    parseUrl o.url = some target ∧ isToken o.method = true ∧
      headersFrom o.headers = some headers := by
  unfold checkTarget at h
  split at h
  · cases h
  · next found hparse =>
    split at h
    · cases h
    · next hgood =>
      obtain ⟨pairs, hpairs, heq⟩ := Option.map_eq_some_iff.mp h
      cases heq
      have htoken : isToken o.method = true := by
        cases hmethod : isToken o.method with
        | true => rfl
        | false =>
          rw [hmethod, Bool.not_false, Bool.or_true] at hgood
          exact absurd rfl hgood
      exact ⟨hparse, htoken, hpairs⟩

theorem checkOptions_ok (h : checkOptions parseUrl defaultMaximum hint o = .ok c) :
    Passed parseUrl o c := by
  simp only [checkOptions, bind_ok, rejectIf_ok] at h
  obtain ⟨-, hid, -, hpartition, -, hscope, -, -, h⟩ := h
  simp only [Bool.or_eq_false_iff, Bool.not_eq_false'] at hid hpartition hscope
  have hcontext : ∀ id ∈ o.contextId, opaqueText id = true := by
    intro id hmem
    have hnone := hscope.2
    rw [Option.mem_def.mp hmem] at hnone
    simpa using hnone
  split at h
  · cases h
  · cases h
  · next target headers body htarget hbody =>
    simp only [bind_ok, rejectIf_ok, Bool.not_eq_false'] at h
    obtain ⟨-, hless, -, hmaximum, hc⟩ := h
    cases hc
    obtain ⟨hparse, htoken, hheaders⟩ := checkTarget_some htarget
    refine ⟨hid.1, hpartition, hscope.1, hcontext, hparse, ⟨rfl, htoken⟩, hheaders, hbody, ?_,
      hmaximum, hid.2⟩
    intro hmem
    by_contra hne
    rw [List.contains_iff_mem.mpr hmem] at hless
    simp [hne] at hless

structure Allowed (caps : Capabilities) (connection : Option ConnectionSpec) (c : Checked)
    (timeoutMs : ℕ) : Prop where
  profile : ∀ spec ∈ connection, (caps.resolveProfile spec.identity.tlsProfile).isSome = true
  timeout : timeoutMs ≤ caps.limits.maxTimeoutMs
  response : c.maximum.value ≤ caps.limits.maxResponseBytes
  headers : c.headers.length ≤ caps.limits.maxHeaders
  headerBytes : ContextHandlers.headerBytes c.headers ≤ caps.limits.maxHeaderBytes
  length : ∀ n ∈ c.body.length, n ≤ caps.limits.maxRequestBytes

theorem blt_eq_false {m n : ℕ} : Nat.blt m n = false ↔ n ≤ m := by
  rw [← Bool.not_eq_true, Nat.blt_eq, Nat.not_lt]

theorem validateConnection_ok {spec : ConnectionSpec}
    (h : validateConnection parseUrl caps spec = .ok ()) :
    (caps.resolveProfile spec.identity.tlsProfile).isSome = true := by
  simp only [validateConnection, bind_ok, rejectIf_ok] at h
  obtain ⟨-, hprofile, -⟩ := h
  rwa [Option.isNone_eq_false_iff] at hprofile

theorem describe_ok
    (h : describe parseUrl stringify caps hint o c diag timeoutMs elapsed = .ok (w, json)) :
    Allowed caps (o.connection <|> hint) c timeoutMs ∧ w = wire o c timeoutMs elapsed ∧
      json = stringify w ∧ json.length ≤ caps.framing.maxMetadataBytes := by
  simp only [describe, bind_ok, rejectIf_ok, Bool.or_eq_false_iff, blt_eq_false] at h
  obtain ⟨_, hconnection, -, ⟨⟨⟨htimeout, hresponse⟩, hheaders⟩, hsize⟩, -, hlength, -, -, -, hjson,
    heq⟩ := h
  cases heq
  refine ⟨⟨?_, htimeout, hresponse, hheaders, hsize, ?_⟩, rfl, rfl, hjson⟩
  · intro spec hspec
    rw [Option.mem_def.mp hspec] at hconnection
    exact validateConnection_ok hconnection
  · intro n hn
    rw [Option.mem_def.mp hn] at hlength
    exact blt_eq_false.mp hlength

theorem ascii_graphic {c : Char} (h : '!' ≤ c ∧ c ≤ '~') :
    ∃ b, String.utf8EncodeChar c = [b] ∧ ContextHandlers.isAsciiGraphic b = true := by
  have hlow : 33 ≤ c.toNat := h.1
  have hhigh : c.toNat ≤ 126 := h.2
  have hsize : UInt8.size = 256 := rfl
  have hnat : (UInt8.ofNat c.toNat).toNat = c.toNat := UInt8.toNat_ofNat_of_lt' (by omega)
  refine ⟨UInt8.ofNat c.toNat, if_pos (show c.toNat ≤ 127 by omega), ?_⟩
  simp only [ContextHandlers.isAsciiGraphic, Bool.and_eq_true, decide_eq_true_eq,
    UInt8.le_iff_toNat_le, hnat]
  exact ⟨hlow, hhigh⟩

theorem opaqueChar_graphic {c : Char} (h : opaqueChar c = true) : '!' ≤ c ∧ c ≤ '~' := by
  simp only [opaqueChar, Bool.or_eq_true, List.contains_iff_mem, List.mem_cons, List.not_mem_nil,
    or_false] at h
  rcases h with halphanum | rfl | rfl | rfl | rfl
  · exact AsciiText.alphanum_graphic halphanum
  all_goals decide

theorem graphic_bytes {text : List Char} (h : ∀ c ∈ text, '!' ≤ c ∧ c ≤ '~') :
    (text.flatMap String.utf8EncodeChar).length = text.length ∧
      (text.flatMap String.utf8EncodeChar).all ContextHandlers.isAsciiGraphic = true := by
  induction text with
  | nil => exact ⟨rfl, rfl⟩
  | cons c text ih =>
    obtain ⟨b, hb, hgraphic⟩ := ascii_graphic (h c List.mem_cons_self)
    obtain ⟨hlength, hall⟩ := ih fun d hd => h d (List.mem_cons_of_mem c hd)
    rw [List.flatMap_cons, hb]
    exact ⟨by simp [hlength], by simp only [List.singleton_append, List.all_cons, hgraphic, hall,
      Bool.and_self]⟩

/-- The identifiers of the SDK are among those of the service. -/
theorem validOpaque_of_opaqueText {text : String} (h : opaqueText text = true) :
    ContextHandlers.validOpaque text = true := by
  simp only [opaqueText, Bool.and_eq_true, decide_eq_true_eq, List.all_eq_true] at h
  obtain ⟨⟨hne, hle⟩, hchars⟩ := h
  obtain ⟨hlength, hgraphic⟩ := graphic_bytes fun c hc => opaqueChar_graphic (hchars c hc)
  have hempty : (ContextHandlers.bytes text).isEmpty = false := by
    rw [List.isEmpty_eq_false_iff_exists_mem]
    exact List.exists_mem_of_length_pos (by rw [ContextHandlers.bytes, hlength]; omega)
  have hble : Nat.ble (ContextHandlers.bytes text).length 128 = true := by
    rw [ContextHandlers.bytes, hlength, Nat.ble_eq]
    exact hle
  rw [ContextHandlers.validOpaque, hempty, hble, ContextHandlers.bytes, hgraphic]
  rfl

def metadata (w : Wire) : ContextHandlers.RequestMetadata where
  requestId := w.fields.requestId
  partition := w.fields.partition
  contextId := w.fields.contextId
  connection := w.fields.connection.map (·.identity)
  url := w.fields.url
  method := w.fields.method
  headers := w.fields.headers
  hasBody := w.hasBody
  bodyLength := w.bodyLength
  timeoutMs := w.fields.timeoutMs
  maxResponseBytes := w.fields.maxResponseBytes

theorem remaining_within {maximum : ℕ} (elapsed : ℕ) (h : timeoutMs ≤ maximum)
    (hpos : 0 < maximum) :
    0 < remaining timeoutMs elapsed ∧ remaining timeoutMs elapsed ≤ maximum := by
  unfold remaining
  omega

theorem positive_value_pos {n : Number} (h : n.positive = true) : 0 < n.value := by
  cases n with
  | other => cases h
  | integer n =>
    have hpos := (SafeIntegers.positive_iff.mp h).1
    show 0 < n.toNat
    omega

variable {s : Surroundings} {config : Config} {r : ProfileRegistry.Registry}
  {fromBytes : String → Bool}

/-- The parsers that `validate_metadata` calls; `fromBytes` says what `Method::from_bytes` takes. -/
def parsers (r : ProfileRegistry.Registry) (fromBytes : String → Bool) :
    ContextHandlers.Parsers where
  method := fromBytes
  tlsProfile name := (ProfileRegistry.parseTlsProfile r name).isOk

/-- Whatever the capabilities of the service allow is within its limits, but for the length of
the URL. -/
theorem malformed_wire (elapsed : ℕ) (hvalid : config.Valid) (hpassed : Passed parseUrl o c)
    (hallowed : Allowed (capabilities r config) (o.connection <|> hint) c timeoutMs) :
    ContextHandlers.malformed config.handlers (metadata (wire o c timeoutMs elapsed)) =
      Nat.blt 16384 (ContextHandlers.bytes c.target.href).length := by
  have hrequest := validOpaque_of_opaqueText hpassed.requestId
  have hpartition := validOpaque_of_opaqueText hpassed.partition
  have hcontext : (if o.connection.isSome then none else o.contextId).any
      (fun id => !ContextHandlers.validOpaque id) = false := by
    split
    · rfl
    · rw [Option.any_eq_false]
      intro id hid
      rw [validOpaque_of_opaqueText (hpassed.contextId id hid)]
      rfl
  have hexclusive : ((if o.connection.isSome then none else o.contextId).isSome ==
      (o.connection.map (·.identity)).isSome) = false := by
    have hscope := hpassed.exclusive
    cases hconnection : o.connection <;> cases hid : o.contextId <;>
      simp [hconnection, hid] at hscope ⊢
  obtain ⟨hpos, hremaining⟩ := remaining_within elapsed hallowed.timeout
    hvalid.maxTimeoutMs.1
  have hmaximum := positive_value_pos hpassed.maximum
  have hlength : c.body.length.any (fun length =>
      Nat.blt config.maxRequestBodySize length || (!decide (c.body ≠ .absent) && length != 0)) =
      false := by
    rw [Option.any_eq_false]
    intro n hn
    have hle : Nat.blt config.maxRequestBodySize n = false :=
      blt_eq_false.mpr (hallowed.length n hn)
    have hbody : c.body ≠ .absent := by
      rintro heq
      rw [heq] at hn
      cases hn
    rw [hle]
    simp [hbody]
  have htimeout : Nat.blt config.maxTimeoutMs (remaining timeoutMs elapsed) = false :=
    blt_eq_false.mpr hremaining
  have hresponse : Nat.blt config.maxResponseBodySize c.maximum.value = false :=
    blt_eq_false.mpr hallowed.response
  have hheaders : Nat.blt 256 c.headers.length = false := blt_eq_false.mpr hallowed.headers
  have hsize : Nat.blt 32768 (ContextHandlers.headerBytes c.headers) = false :=
    blt_eq_false.mpr hallowed.headerBytes
  simp only [ContextHandlers.malformed, metadata, wire, Body.wire, Config.handlers, hrequest,
    hpartition, hcontext, hexclusive, htimeout, hresponse, hlength, hheaders, hsize, Bool.not_true,
    Bool.false_or, Bool.or_false]
  rw [beq_eq_false_iff_ne.mpr (Nat.ne_of_gt hpos), beq_eq_false_iff_ne.mpr (Nat.ne_of_gt hmaximum),
    Bool.false_or, Bool.false_or]

theorem parsed_of_resolved (hr : r.Pinned) {name : String}
    (h : ((capabilities r config).resolveProfile name).isSome = true) :
    (ProfileRegistry.parseTlsProfile r name).isOk = true := by
  obtain ⟨concrete, hconcrete⟩ := Option.isSome_iff_exists.mp h
  have hresolves := resolves_alike config hr name
  rw [hconcrete] at hresolves
  unfold ProfileRegistry.canonicalProfileName at hresolves
  cases hparse : ProfileRegistry.parseTlsProfile r name with
  | ok profile => rfl
  | error e =>
    rw [hparse] at hresolves
    cases hresolves

def verdict (w : Wire) : Except TransportErrors.TransportError Unit :=
  if 16384 < (ContextHandlers.bytes w.fields.url).length then .error (.fromCode .invalidRequest)
  else if w.fields.method = "CONNECT" ∨ w.fields.method = "TRACE" then
    .error (.fromCode .unsupportedCapability)
  else .ok ()

theorem tokenChar_toUpper {c : Char} (h : tokenChar c = true) : tokenChar c.toUpper = true := by
  by_cases hlower : c.isLower = true
  · have halpha : c.toUpper.isAlpha = true := by
      rw [Char.isAlpha_toUpper_eq_isAlpha, Char.isAlpha, hlower, Bool.or_true]
    simp only [tokenChar, Char.isAlphanum, halpha, Bool.true_or]
  · rwa [Char.toUpper_eq_of_not_isLower hlower]

theorem upper_token {text : String} (h : isToken text = true) : isToken (upper text) = true := by
  simp only [isToken, upper, String.toList_ofList, Bool.and_eq_true, Bool.not_eq_true',
    List.isEmpty_eq_false_iff, List.all_map, List.all_eq_true, Function.comp_apply] at h ⊢
  exact ⟨by simpa using h.1, fun c hc => tokenChar_toUpper (h.2 c hc)⟩

theorem validateMetadata_wire (hvalid : config.Valid) (hr : r.Pinned)
    (hmethod : ∀ method, isToken method = true → fromBytes method = true)
    (hpassed : Passed parseUrl o c)
    (hallowed : Allowed (capabilities r config) (o.connection <|> hint) c timeoutMs) :
    ContextHandlers.validateMetadata (parsers r fromBytes) config.handlers
      (metadata (wire o c timeoutMs elapsed)) = verdict (wire o c timeoutMs elapsed) := by
  have hmalformed := malformed_wire elapsed hvalid hpassed hallowed
  have htoken : (parsers r fromBytes).method c.method = true := by
    rw [hpassed.method.1]
    exact hmethod _ (upper_token hpassed.method.2)
  have hprofile : ∀ spec ∈ o.connection,
      (parsers r fromBytes).tlsProfile spec.identity.tlsProfile = true := by
    intro spec hspec
    have hmem : spec ∈ (o.connection <|> hint) := by
      rw [Option.mem_def.mp hspec]
      rfl
    exact parsed_of_resolved hr (hallowed.profile spec hmem)
  have hurl : (wire o c timeoutMs elapsed).fields.url = c.target.href := rfl
  have hsent : (wire o c timeoutMs elapsed).fields.method = c.method := rfl
  have hread : (metadata (wire o c timeoutMs elapsed)).method = c.method := rfl
  have hconnection : (metadata (wire o c timeoutMs elapsed)).connection =
      o.connection.map (·.identity) := rfl
  rw [ContextHandlers.validateMetadata, verdict, hmalformed, hurl, hsent, hread, hconnection]
  by_cases hlong : 16384 < (ContextHandlers.bytes c.target.href).length
  · rw [if_pos hlong, Nat.blt_eq.mpr hlong]
    rfl
  · rw [if_neg hlong, blt_eq_false.mpr (Nat.le_of_not_lt hlong)]
    simp only [htoken, Bool.not_true, rejectIf, Bool.false_eq_true, if_false, Except.bind,
      Bool.or_eq_true, beq_iff_eq]
    by_cases hrefused : c.method = "CONNECT" ∨ c.method = "TRACE"
    · rw [if_pos hrefused]
    · rw [if_neg hrefused]
      cases hspec : o.connection with
      | none => rfl
      | some spec => simp [hprofile spec hspec]

/-- The limits that `uploadFrames` is called with. -/
def uploadLimits (caps : Capabilities) : SdkUpload.Limits :=
  ⟨caps.limits.maxRequestBytes, caps.framing.maxDataBytes, caps.framing.maxUploadFrames⟩

/-- What the service tells `FrameReader::upload` about the request. -/
def uploadTerms (config : Config) (w : Wire) : FrameReader.Terms :=
  ⟨config.maxRequestBodySize, w.hasBody, w.bodyLength⟩

/-- An upload with an end frame carries the metadata and, in frames that the service takes, the
whole body. -/
theorem upload_received {decode : Bytes → Option Wire} {chunks : List Bytes}
    {es : List SdkUpload.Event} {st : SdkUpload.Encoder}
    (hrun : (SdkUpload.machine (uploadLimits (capabilities r config)) json c.body).run
      (.initial c.body) es = some st)
    (hend : ∃ f ∈ st.output, f.head? = some 3) (hchunks : chunks.flatten = st.output.flatten)
    (hne : json ≠ []) (hle : json.length ≤ FrameReader.maxMetadataBytes)
    (hdecode : decode json = some w)
    (hterms : uploadTerms config w = c.body.terms config.maxRequestBodySize) :
    ∃ reader, FrameReader.Reader.metadata decode ⟨[], chunks.map .bytes⟩ = .ok (w, reader) ∧
      (uploadTerms config w).upload FrameReader.maxUploadFrames reader 0 = .ok () ∧
      ((uploadTerms config w).forwarded FrameReader.maxUploadFrames reader 0).flatten =
        c.body.content := by
  have hinv := SdkUpload.run_invariant (l := SdkUpload.serviceLimits config.maxRequestBodySize)
    (Nat.zero_lt_succ _) hrun
  obtain ⟨f, hf, hkind⟩ := hend
  cases hinv with
  | sending ps h _ => exact absurd hkind (h.unfinished f hf)
  | dead ended output => exact absurd hkind (output f hf)
  | done hdone =>
    obtain ⟨ps, hps⟩ := hdone.finished
    obtain ⟨hbytes, hgood⟩ := SdkUpload.available_chunks chunks
    have hrest : (⟨[], chunks.map .bytes⟩ : FrameReader.Reader).rest =
        FrameReader.frame 1 json ++ FrameReader.encode ps := by
      rw [FrameReader.Reader.rest, List.nil_append, hbytes, hchunks, hps.flatten]
    obtain ⟨reader, hmeta, htail, hsound⟩ := FrameReader.metadata_of_rest hrest hne hle hdecode
    have hacceptable := hps.acceptable
    rw [hterms]
    refine ⟨reader, hmeta, ?_, ?_⟩
    · exact FrameReader.upload_of_encode (by decide) (hsound.mpr hgood) htail hacceptable
    · rw [FrameReader.forwarded_of_encode (by decide) (hsound.mpr hgood) htail hacceptable,
        hps.content]

/-- Whatever the SDK sends to a service whose capabilities it holds arrives there: the metadata
are read back and refused only for a URL of more than 16384 bytes or for the methods CONNECT and
TRACE, the service reports the profile that the SDK expects, and the upload is accepted with
exactly the body of the call. -/
theorem request_arrives (hconfig : fromEnv s = .ok config) (hr : r.Pinned)
    (hmethod : ∀ method, isToken method = true → fromBytes method = true)
    (hchecked : checkOptions parseUrl defaultMaximum hint o = .ok c)
    (hdescribed : describe parseUrl stringify (capabilities r config) hint o c diag timeoutMs
      elapsed = .ok (w, json))
    {decode : Bytes → Option Wire} (hjson : stringify w ≠ [])
    (hdecode : decode (stringify w) = some w)
    {es : List SdkUpload.Event} {st : SdkUpload.Encoder}
    (hrun : (SdkUpload.machine (uploadLimits (capabilities r config)) json c.body).run
      (.initial c.body) es = some st)
    (hend : ∃ f ∈ st.output, f.head? = some 3)
    (chunks : List Bytes) (hchunks : chunks.flatten = st.output.flatten) :
    ContextHandlers.validateMetadata (parsers r fromBytes) config.handlers
      (metadata w) = verdict w ∧
    (∀ spec ∈ (o.connection <|> hint), ∃ concrete,
      (capabilities r config).resolveProfile spec.identity.tlsProfile = some concrete ∧
      ProfileRegistry.canonicalProfileName r spec.identity.tlsProfile = .ok concrete) ∧
    ∃ reader, FrameReader.Reader.metadata decode ⟨[], chunks.map .bytes⟩ = .ok (w, reader) ∧
      (uploadTerms config w).upload FrameReader.maxUploadFrames reader 0 = .ok () ∧
      ((uploadTerms config w).forwarded FrameReader.maxUploadFrames reader 0).flatten =
        c.body.content := by
  obtain ⟨hallowed, hw, rfl, hle⟩ := describe_ok hdescribed
  refine ⟨?_, ?_, ?_⟩
  · rw [hw]
    exact validateMetadata_wire (fromEnv_valid hconfig) hr hmethod
      (checkOptions_ok hchecked) hallowed
  · intro spec hspec
    obtain ⟨concrete, hconcrete⟩ := Option.isSome_iff_exists.mp (hallowed.profile spec hspec)
    have hresolves := resolves_alike config hr spec.identity.tlsProfile
    rw [hconcrete] at hresolves
    exact ⟨concrete, hconcrete, hresolves⟩
  · refine upload_received hrun hend hchunks hjson hle hdecode ?_
    rw [hw]
    rfl

def plainUrl : Url := ⟨"https:", "", "", "example.com", "", "", "https://example.com/"⟩

def plainOptions : Options where
  requestId := "r1"
  attempt := none
  partition := "p1"
  contextId := none
  connection := some ⟨.direct, ⟨"chrome_stable", true, none⟩⟩
  url := "https://example.com"
  method := "post"
  headers := [("Accept", "*/*"), ("TraceParent", "00-0")]
  headerOrder := some "browser"
  body := some (.bytes [104, 105])
  maxResponseBytes := some (.integer 1024)

def plainChecked : Checked :=
  ⟨plainUrl, [("Accept", "*/*")], "POST", .bytes [104, 105], .integer 1024, .integer 0⟩

def plainWire : Wire := wire plainOptions plainChecked 5000 1

def plainText : String :=
  "\x7b\"requestId\":\"r1\",\"partition\":\"p1\",\"connection\":\x7b\"egress\":" ++
    "\x7b\"mode\":\"direct\"\x7d,\"identity\":\x7b\"tlsProfile\":\"chrome_stable\"," ++
    "\"emulateHeaders\":true\x7d\x7d,\"url\":\"https://example.com/\",\"method\":\"POST\"," ++
    "\"headers\":[[\"Accept\",\"*/*\"]],\"headerOrder\":\"browser\",\"timeoutMs\":4999," ++
    "\"maxResponseBytes\":1024,\"attempt\":0,\"hasBody\":true,\"bodyLength\":2\x7d"

def plainJson : Bytes := plainText.toUTF8.data.toList

def plainStringify (w : Wire) : Bytes := if w = plainWire then plainJson else []

def plainDecode (json : Bytes) : Option Wire := if json = plainJson then some plainWire else none

theorem plain_read : plainDecode (plainStringify plainWire) = some plainWire := by
  rw [plainStringify, if_pos rfl]
  exact if_pos rfl

/-- The text `hi`, cut into single bytes on its way. -/
theorem request_arrives_plain :
    checkOptions (fun _ => some plainUrl) 1048576 none plainOptions = .ok plainChecked ∧
    ContextHandlers.validateMetadata (parsers ProfileRegistry.smallRegistry isToken)
      sampleConfig.handlers (metadata plainWire) = .ok () ∧
    ∃ st, (SdkUpload.machine
        (uploadLimits (capabilities ProfileRegistry.smallRegistry sampleConfig)) plainJson
        plainChecked.body).run (.initial plainChecked.body) [.pull, .pull, .pull] = some st ∧
      ∃ reader, FrameReader.Reader.metadata plainDecode
          ⟨[], (st.output.flatten.map fun b => [b]).map .bytes⟩ = .ok (plainWire, reader) ∧
        ((uploadTerms sampleConfig plainWire).forwarded FrameReader.maxUploadFrames reader
          0).flatten = [104, 105] := by
  have hchecked : checkOptions (fun _ => some plainUrl) 1048576 none plainOptions =
      .ok plainChecked := by decide +kernel
  have hdescribed : describe (fun _ => some plainUrl) plainStringify
      (capabilities ProfileRegistry.smallRegistry sampleConfig) none plainOptions plainChecked
      defaultDiagnostics 5000 1 = .ok (plainWire, plainJson) := by decide +kernel
  have hverdict : verdict plainWire = .ok () := by decide +kernel
  have hrun : ∃ st, (SdkUpload.machine
      (uploadLimits (capabilities ProfileRegistry.smallRegistry sampleConfig)) plainJson
      plainChecked.body).run (.initial plainChecked.body) [.pull, .pull, .pull] = some st ∧
      ∃ f ∈ st.output, f.head? = some 3 :=
    ⟨_, rfl, FrameReader.frame 3 [], by decide, rfl⟩
  obtain ⟨st, hst, hend⟩ := hrun
  obtain ⟨hvalid, -, reader, hread, -, hforwarded⟩ := request_arrives
    (fromEnv_printed (prints_printed _) sampleConfig_valid) ProfileRegistry.smallRegistry_pinned
    (fun _ h => h) hchecked hdescribed (by decide +kernel) plain_read hst hend
    (st.output.flatten.map fun b => [b]) (FrameReader.single_bytes _)
  exact ⟨hchecked, hvalid.trans hverdict, st, hst, reader, hread, hforwarded⟩

end SdkRequest
