import Ja3Proxy.AsciiText
import Ja3Proxy.TransportErrors

/-! Errors and wire checks of the TypeScript SDK (`errors.ts`, `protocol.ts`, `service.ts`).
A JSON value that the generated schema validators accept is a typed record here; one that
they refuse is `none`. References of observers are not modelled. -/
namespace SdkErrors

open AsciiText (hexId tokenChar)
open TransportErrors

inductive FailureKind where
  | proxyUnreachable | serviceUnavailable | connectionLost | unknown | clientClosed
  | queueFull | bufferLimit | invalidInput | workerUnavailable
  deriving DecidableEq, Repr

structure Diagnostics where
  requestId : String
  attempt : ℕ
  phase : Phase
  delivery : Delivery
  queueMs : ℕ
  headersMs : Option ℕ
  bodyMs : Option ℕ
  totalMs : ℕ
  requestBytes : ℕ
  responseBytes : ℕ
  tlsProfile : String
  traceId : Option String
  spanId : Option String
  clientReused : Option Bool
  contextId : Option String
  cookieRevision : Option ℕ
  deriving DecidableEq, Repr

structure SdkError where
  code : ErrorCode
  kind : FailureKind
  diagnostics : Diagnostics
  usedProxy : Bool
  deriving DecidableEq, Repr

def SdkError.delivery (e : SdkError) : Delivery := e.diagnostics.delivery

/-- The constructor of `Ja3ProxyTransportError`. -/
def SdkError.new (code : ErrorCode) (d : Diagnostics) (usedProxy : Bool)
    (kind : Option FailureKind) : SdkError where
  code := code
  kind := kind.getD (if code = .proxyError then .proxyUnreachable
    else if d.delivery = .responseStarted then .connectionLost else .unknown)
  diagnostics := d
  usedProxy := usedProxy

@[simp] theorem new_delivery (code : ErrorCode) (d : Diagnostics) (usedProxy : Bool)
    (kind : Option FailureKind) : (SdkError.new code d usedProxy kind).delivery = d.delivery := rfl

def opaqueChar (c : Char) : Bool :=
  c.isAlphanum || ['_', '.', ':', '-'].contains c

/-- `/^[A-Za-z0-9_.:-]{1,128}$/` -/
def opaqueText (s : String) : Bool :=
  1 ≤ s.toList.length && s.toList.length ≤ 128 && s.toList.all opaqueChar

/-- `/^[a-z0-9_.]{1,64}$/` -/
def profileName (s : String) : Bool :=
  1 ≤ s.toList.length && s.toList.length ≤ 64 &&
    s.toList.all fun c => c.isDigit || c.isLower || c == '_' || c == '.'

def headerPairs (headers : List (String × String)) : Bool :=
  headers.all fun (name, value) => !name.toList.isEmpty && name.toList.all tokenChar &&
    value.toList.all fun c => c != '\r' && c != '\n' && c != Char.ofNat 0

/-- `diagnostics(value, requestId, attempt)` after the schema: the correlation is only
checked where it is given. -/
def diagnosticsOk (d : Diagnostics) (correlation : Option (String × ℕ)) : Bool :=
  opaqueText d.requestId &&
    (correlation.all fun (requestId, attempt) => d.requestId == requestId &&
      d.attempt == attempt) &&
    (if d.tlsProfile == "" then d.delivery == .notStarted else profileName d.tlsProfile) &&
    (match d.traceId with
      | none => d.spanId.isNone
      | some traceId => hexId 32 traceId && d.spanId.all (hexId 16)) &&
    d.contextId.all opaqueText

def initialDiagnostics (requestId : String) (attempt : ℕ) (tlsProfile : String) : Diagnostics where
  requestId := if opaqueText requestId then requestId else "local"
  attempt := attempt
  phase := .preparing
  delivery := .notStarted
  queueMs := 0
  headersMs := none
  bodyMs := none
  totalMs := 0
  requestBytes := 0
  responseBytes := 0
  tlsProfile := if profileName tlsProfile then tlsProfile else "unknown"
  traceId := none
  spanId := none
  clientReused := none
  contextId := none
  cookieRevision := none

/-- `initialDiagnostics()` -/
def defaultDiagnostics : Diagnostics := initialDiagnostics "local" 0 "unknown"

def localError (code : ErrorCode) (kind : Option FailureKind) : SdkError :=
  .new code defaultDiagnostics false kind

/-- `safeError` of an error that is not one of the SDK. -/
def unknownError (fallback : Diagnostics) : SdkError := .new .unknown fallback false none

/-- `Deadline.error` with the time since the deadline started. -/
def deadlineError (timedOut : Bool) (kind : Option FailureKind) (d : Diagnostics) (totalMs : ℕ)
    (usedProxy : Bool) : SdkError :=
  .new (if timedOut then .timeout else .cancelled) { d with totalMs := totalMs } usedProxy kind

structure WireError where
  code : ErrorCode
  diagnostics : Option Diagnostics
  deriving DecidableEq, Repr

/-- What the diagnostics of an error must match. The identifier `control` stands for control
operations, which have no correlation of their own. -/
def Diagnostics.known (fallback : Diagnostics) : Option (String × ℕ) :=
  if fallback.requestId = "control" then none else some (fallback.requestId, fallback.attempt)

def transportError (value : Option WireError) (fallback : Diagnostics) (usedProxy : Bool)
    (requireDiagnostics : Bool) : SdkError :=
  match value with
  | none => .new .protocolError fallback usedProxy none
  | some ⟨code, none⟩ =>
    if requireDiagnostics then .new .protocolError fallback usedProxy none
    else .new code fallback usedProxy none
  | some ⟨code, some d⟩ =>
    if !diagnosticsOk d fallback.known then .new .protocolError fallback usedProxy none
    else if requireDiagnostics &&
      !diagnosticsOk d (some (fallback.requestId, fallback.attempt)) then
      .new .protocolError fallback usedProxy none
    else .new code (if diagnosticsOk d none then d else fallback) usedProxy none

/-- An error of the service that says `not_started` after a fallback that does not carries
the diagnostics of the service, with as much correlation as was asked for. -/
theorem transportError_notStarted {value : Option WireError} {fallback : Diagnostics}
    {usedProxy requireDiagnostics : Bool} (hfallback : fallback.delivery ≠ .notStarted)
    (h : (transportError value fallback usedProxy requireDiagnostics).delivery = .notStarted) :
    ∃ code d, value = some ⟨code, some d⟩ ∧ d.delivery = .notStarted ∧
      diagnosticsOk d none = true ∧
      (fallback.requestId ≠ "control" ∨ requireDiagnostics = true →
        diagnosticsOk d (some (fallback.requestId, fallback.attempt)) = true) := by
  unfold transportError at h
  split at h
  · exact absurd h hfallback
  · split at h <;> exact absurd h hfallback
  · next code d =>
    split at h
    · exact absurd h hfallback
    · next hknown =>
      split at h
      · exact absurd h hfallback
      · next hrequired =>
        split at h
        · next hvalid =>
          refine ⟨code, d, rfl, h, hvalid, ?_⟩
          rintro (hid | hrequire)
          · simpa [Diagnostics.known, hid] using hknown
          · simpa [hrequire] using hrequired
        · exact absurd h hfallback

theorem transportError_control (code : ErrorCode) (usedProxy : Bool) {d fallback : Diagnostics}
    (hid : fallback.requestId = "control") (hd : diagnosticsOk d none = true) :
    transportError (some ⟨code, some d⟩) fallback usedProxy false = .new code d usedProxy none := by
  simp [transportError, Diagnostics.known, hid, hd]

structure ResponseMetadata where
  requestId : String
  status : ℕ
  headers : List (String × String)
  diagnostics : Diagnostics
  cookieRevision : Option ℕ
  deriving DecidableEq, Repr

def responseMetadataOk (value : ResponseMetadata) (requestId : String) (attempt : ℕ) : Bool :=
  value.requestId == requestId && 200 ≤ value.status && value.status ≤ 599 &&
    headerPairs value.headers && diagnosticsOk value.diagnostics (some (requestId, attempt)) &&
    value.diagnostics.delivery == .responseStarted

theorem responseMetadata_delivery {value : ResponseMetadata} {requestId : String} {attempt : ℕ}
    (h : responseMetadataOk value requestId attempt = true) :
    value.diagnostics.delivery = .responseStarted := by
  simp only [responseMetadataOk, Bool.and_eq_true, beq_iff_eq] at h
  exact h.2

theorem diagnosticsOk_none {d : Diagnostics} {correlation : Option (String × ℕ)}
    (h : diagnosticsOk d correlation = true) : diagnosticsOk d none = true := by
  simp only [diagnosticsOk, Bool.and_eq_true] at h ⊢
  exact ⟨⟨⟨⟨h.1.1.1.1, rfl⟩, h.1.1.2⟩, h.1.2⟩, h.2⟩

theorem diagnosticsOk_correlated {d : Diagnostics} {requestId : String} {attempt : ℕ}
    (h : diagnosticsOk d (some (requestId, attempt)) = true) :
    d.requestId = requestId ∧ d.attempt = attempt := by
  simp only [diagnosticsOk, Option.all_some, Bool.and_eq_true, beq_iff_eq] at h
  exact h.1.1.1.2

theorem responseMetadata_correlated {value : ResponseMetadata} {requestId : String} {attempt : ℕ}
    (h : responseMetadataOk value requestId attempt = true) :
    value.diagnostics.requestId = requestId ∧ value.diagnostics.attempt = attempt := by
  simp only [responseMetadataOk, Bool.and_eq_true] at h
  exact diagnosticsOk_correlated h.1.2

end SdkErrors
