import Mathlib.Data.List.Basic

/-! Wire errors and diagnostics (`src/error.rs`, `src/models.rs`).
HTTP status codes, serde attributes and the error's `Display` are not modelled. -/
namespace TransportErrors

inductive ErrorCode where
  | unauthorized | invalidRequest | unsupportedCapability | invalidProfile | egressRequired
  | ssrfBlocked | bodyTooLarge | busy | timeout | cancelled | dnsError | proxyError | tlsError
  | connectError | protocolError | contextNotFound | contextConflict | contextLimit
  | cookieLimit | duplicateRequest | unknown
  deriving DecidableEq, Repr

def ErrorCode.message : ErrorCode → String
  | .unauthorized => "Die Dienstauthentifizierung ist ungültig."
  | .invalidRequest => "Die Anfrage ist ungültig."
  | .unsupportedCapability => "Die angeforderte Transportfunktion wird nicht unterstützt."
  | .invalidProfile => "Das TLS-Profil wird nicht unterstützt."
  | .egressRequired => "Ein expliziter Verbindungsweg ist erforderlich."
  | .ssrfBlocked => "Das Verbindungsziel ist durch die Netzwerkrichtlinie gesperrt."
  | .bodyTooLarge => "Die zulässige Anzahl an Nutzdatenbytes wurde überschritten."
  | .busy => "Die begrenzte Transportkapazität ist ausgelastet."
  | .timeout => "Das gesamte Zeitbudget der Anfrage wurde überschritten."
  | .cancelled => "Die Anfrage wurde abgebrochen."
  | .dnsError => "Die Namensauflösung ist fehlgeschlagen."
  | .proxyError => "Die Verbindung zum Proxy ist fehlgeschlagen."
  | .tlsError => "Die TLS-Verbindung ist fehlgeschlagen."
  | .connectError => "Die Verbindung zum Ziel ist fehlgeschlagen."
  | .protocolError => "Der Transportdatenstrom ist ungültig oder unvollständig."
  | .contextNotFound => "Der Transportkontext ist nicht verfügbar."
  | .contextConflict => "Der Transportkontext oder seine Revision ist unvereinbar."
  | .contextLimit => "Die zulässige Anzahl an Transportkontexten wurde erreicht."
  | .cookieLimit => "Die zulässige Cookie-Grenze wurde überschritten."
  | .duplicateRequest => "Die Anfragekennung wurde bereits verwendet."
  | .unknown => "Ein interner Transportfehler ist aufgetreten."

def ErrorCode.status : ErrorCode → ℕ
  | .unauthorized => 401
  | .busy | .contextLimit => 429
  | .timeout => 504
  | .contextNotFound => 404
  | .contextConflict | .duplicateRequest => 409
  | .bodyTooLarge | .cookieLimit => 413
  | .dnsError | .proxyError | .tlsError | .connectError => 502
  | .unknown => 500
  | _ => 400

inductive Phase where
  | queued | preparing | upstream | body | complete
  deriving DecidableEq, Repr

inductive Delivery where
  | notStarted | possiblySent | responseStarted
  deriving DecidableEq, Repr

structure Diagnostics where
  requestId : String
  attempt : ℕ
  traceId : String
  spanId : String
  phase : Phase
  delivery : Delivery
  queueMs : ℕ
  headersMs : Option ℕ
  bodyMs : Option ℕ
  totalMs : ℕ
  requestBytes : ℕ
  responseBytes : ℕ
  tlsProfile : String
  clientReused : Option Bool
  contextId : Option String
  cookieRevision : Option ℕ
  deriving DecidableEq, Repr

structure TransportError where
  code : ErrorCode
  message : String
  diagnostics : Option Diagnostics
  deriving DecidableEq, Repr

namespace TransportError

def new (code : ErrorCode) (message : String) : TransportError := ⟨code, message, none⟩

def fromCode (code : ErrorCode) : TransportError := new code code.message

def withDiagnostics (error : TransportError) (diagnostics : Diagnostics) : TransportError :=
  { error with diagnostics := some diagnostics }

@[simp] theorem new_code (code : ErrorCode) (message : String) : (new code message).code = code :=
  rfl

end TransportError

end TransportErrors
