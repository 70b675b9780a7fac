import Ja3Proxy.SyncArguments

/-! Every call of the synchronous client as a command of its worker (`sync/index.ts`,
`sync/worker.ts`): what the client posts, and what the worker reads from the copy. Closed clients
and sessions are not called; `SyncBridge` has the order of the messages. -/
namespace SyncCommands

open ClonedValues ExceptRules SdkErrors SyncArguments
open ContextService (BrowserIdentity)
open ListTotals (total)
open SafeIntegers (maxSafe)
open SdkRequest (blt_eq_false)

inductive Operation where
  | request | tryRequest | requestMany | capabilities | requestStatus | cancelRequest
  | createSession | sessionRequest | sessionTryRequest | sessionClose | getCookies | setCookies
  | exportCookies | importCookies | rebindIdentity | close
  deriving DecidableEq, Repr

def Operation.name : Operation → String
  | .request => "request"
  | .tryRequest => "tryRequest"
  | .requestMany => "requestMany"
  | .capabilities => "capabilities"
  | .requestStatus => "requestStatus"
  | .cancelRequest => "cancelRequest"
  | .createSession => "createSession"
  | .sessionRequest => "sessionRequest"
  | .sessionTryRequest => "sessionTryRequest"
  | .sessionClose => "sessionClose"
  | .getCookies => "getCookies"
  | .setCookies => "setCookies"
  | .exportCookies => "exportCookies"
  | .importCookies => "importCookies"
  | .rebindIdentity => "rebindIdentity"
  | .close => "close"

def operations : List Operation :=
  [.request, .tryRequest, .requestMany, .capabilities, .requestStatus, .cancelRequest,
    .createSession, .sessionRequest, .sessionTryRequest, .sessionClose, .getCookies, .setCookies,
    .exportCookies, .importCookies, .rebindIdentity, .close]

inductive SessionCall where
  | request (tried : Bool) (options : Value)
  | close (options : Value)
  | getCookies (url : Value)
  | setCookies (url values : Value)
  | exportCookies
  | importCookies (snapshot : Value)
  | rebindIdentity (identity : Value)

inductive Call where
  | request (tried : Bool) (options : Value)
  | requestMany (options batch : Value)
  | capabilities
  | requestStatus (requestId partition : Value)
  | cancelRequest (requestId partition : Value)
  | createSession (options : Value)
  | session (id : String) (call : SessionCall)
  | close (options : Value)

structure Batch where
  requests : List Request
  concurrency : ℕ
  maxTotalBytes : ℕ
  deriving DecidableEq, Repr

inductive SessionCommand where
  | request (tried : Bool) (r : SessionRequest)
  | close (o : CloseOptions)
  | getCookies (url : String)
  | setCookies (url : String) (values : List String)
  | exportCookies
  | importCookies (snapshot : Value)
  | rebindIdentity (identity : BrowserIdentity)

inductive Command where
  | request (tried : Bool) (r : Request)
  | requestMany (batch : Batch)
  | capabilities
  | requestStatus (requestId partition : String)
  | cancelRequest (requestId partition : String)
  | createSession (o : SessionOptions)
  | session (id : String) (command : SessionCommand)
  | close (o : CloseOptions)

def closeOptions (maximum : ℕ) (value : Value) : Except SdkError CloseOptions :=
  (object (match value with
    | .undefined => literal []
    | .null => literal []
    | value => value)).bind fun input =>
  (keys input ["drain", "timeoutMs"]).bind fun _ =>
  (given (input.read "drain") flag).bind fun drain =>
  (integer maximum MAX_TIMEOUT_MS (input.read "timeoutMs")).bind fun timeoutMs =>
  .ok ⟨drain, min timeoutMs maximum⟩

/-- `options.map` of `requestMany`, with the sum of the body sizes so far. -/
def collect (p : Platform) (c : BridgeConfig) (inputBytes : ℕ) :
    List Value → Except SdkError (List Request)
  | [] => .ok []
  | value :: rest =>
    (request p c.maxRequestBytes value).bind fun converted =>
    let inputBytes := inputBytes + optionalBytes converted.common.body
    (rejectIf (Nat.blt c.maxRequestBytes inputBytes) bodyTooLarge).bind fun _ =>
    (collect p c inputBytes rest).map (converted :: ·)

def arrayItems (maximum : ℕ) (value : Value) : Except SdkError (List Value) :=
  match value with
  | .array items => if Nat.blt maximum items.length then .error invalid else .ok items
  | _ => .error invalid

def prepareBatch (p : Platform) (c : BridgeConfig) (options batch : Value) :
    Except SdkError (Batch × ℕ) :=
  (arrayItems c.maxBatchRequests options).bind fun items =>
  (object (if isUndefined batch then literal [] else batch)).bind fun input =>
  (keys input ["concurrency", "maxTotalBytes", "timeoutMs"]).bind fun _ =>
  (integer c.maxBatchConcurrency c.maxBatchConcurrency (input.read "concurrency")).bind
    fun concurrency =>
  (integer c.maxBatchBytes c.maxBatchBytes (input.read "maxTotalBytes")).bind fun maxTotalBytes =>
  (integer c.operationTimeoutMs c.operationTimeoutMs (input.read "timeoutMs")).bind fun timeoutMs =>
  (collect p c 0 items).bind fun requests =>
  .ok (⟨requests, concurrency, maxTotalBytes⟩, timeoutMs)

def stringValue : Value → Except SdkError String
  | .string s => .ok s
  | _ => .error invalid

def stringItems (value : Value) : Except SdkError (List String) :=
  match value with
  | .array items => items.mapM stringValue
  | _ => .error invalid

def cookieField : Value → Except SdkError ℕ
  | .undefined => .ok 0
  | .boolean _ => .ok 0
  | .number _ => .ok 0
  | .notFinite => .ok 0
  | .string s => .ok s.utf8ByteSize
  | _ => .error invalid

def cookieNames : List String :=
  ["name", "value", "domain", "path", "secure", "httpOnly", "hostOnly", "partitioned", "sameSite",
    "expiresAtMs"]

def wire (p : Platform) (name : String) (value : Value) : Except SdkError Value :=
  (rejectIf (!p.validateWire name value) protocolError).bind fun _ => .ok value

/-- `input.cookies.map` of `importCookies`, with the size of the texts so far. -/
def collectCookies (p : Platform) (bytes : ℕ) : List Value → Except SdkError (List Value)
  | [] => .ok []
  | value :: rest =>
    (object value).bind fun cookie =>
    (keys cookie cookieNames).bind fun _ =>
    (cookie.mapM fun f => cookieField f.2).bind fun sizes =>
    let bytes := bytes + total id sizes
    (rejectIf (Nat.blt MAX_METADATA_BYTES bytes) bodyTooLarge).bind fun _ =>
    (wire p "cookieRecord" (literal cookie)).bind fun cookie =>
    (collectCookies p bytes rest).map (cookie :: ·)

def importedSnapshot (p : Platform) (snapshot : Value) : Except SdkError Value :=
  (object snapshot).bind fun input =>
  (keys input ["partitionKey", "cookies"]).bind fun _ =>
  (arrayItems 4096 (input.read "cookies")).bind fun items =>
  (collectCookies p 0 items).bind fun cookies =>
  (text 1024 (input.read "partitionKey")).bind fun partitionKey =>
  wire p "cookieSnapshot" (literal [("partitionKey", .string partitionKey),
    ("cookies", .array cookies)])

def cookieTexts (value : Value) : Except SdkError (List String) :=
  (arrayItems 4096 value).bind fun items =>
  (items.mapM stringValue).bind fun texts =>
  (rejectIf (Nat.blt MAX_METADATA_BYTES (total String.utf8ByteSize texts)) invalid).bind fun _ =>
  .ok texts

def prepareSession (p : Platform) (c : BridgeConfig) :
    SessionCall → Except SdkError (SessionCommand × ℕ)
  | .request tried options =>
    (sessionRequest p c.maxRequestBytes options).bind fun r =>
    .ok (.request tried r, c.operationTimeoutMs)
  | .close options =>
    (closeOptions c.operationTimeoutMs options).bind fun o => .ok (.close o, o.timeoutMs)
  | .getCookies value =>
    (url p value).bind fun href => .ok (.getCookies href, c.operationTimeoutMs)
  | .setCookies value values =>
    (cookieTexts values).bind fun texts =>
    (url p value).bind fun href => .ok (.setCookies href texts, c.operationTimeoutMs)
  | .exportCookies => .ok (.exportCookies, c.operationTimeoutMs)
  | .importCookies snapshot =>
    (importedSnapshot p snapshot).bind fun snapshot =>
    .ok (.importCookies snapshot, c.operationTimeoutMs)
  | .rebindIdentity value =>
    (identity value).bind fun identity => .ok (.rebindIdentity identity, c.operationTimeoutMs)

/-- The methods of `Ja3ProxySyncClient` and of its sessions up to `#call`. -/
def prepare (p : Platform) (c : BridgeConfig) : Call → Except SdkError (Command × ℕ)
  | .request tried options =>
    (request p c.maxRequestBytes options).bind fun r =>
    .ok (.request tried r, c.operationTimeoutMs)
  | .requestMany options batch =>
    (prepareBatch p c options batch).bind fun (b, timeoutMs) => .ok (.requestMany b, timeoutMs)
  | .capabilities => .ok (.capabilities, c.operationTimeoutMs)
  | .requestStatus requestId partition =>
    (text 128 requestId).bind fun requestId =>
    (text 1024 partition).bind fun partition =>
    .ok (.requestStatus requestId partition, c.operationTimeoutMs)
  | .cancelRequest requestId partition =>
    (text 128 requestId).bind fun requestId =>
    (text 1024 partition).bind fun partition =>
    .ok (.cancelRequest requestId partition, c.operationTimeoutMs)
  | .createSession options =>
    (sessionOptions p options).bind fun o => .ok (.createSession o, c.operationTimeoutMs)
  | .session id call =>
    (prepareSession p c call).bind fun (command, timeoutMs) =>
    .ok (.session id command, timeoutMs)
  | .close options =>
    (closeOptions c.operationTimeoutMs options).bind fun o => .ok (.close o, o.timeoutMs)

def Batch.value (b : Batch) : Value :=
  literal [("requests", .array (b.requests.map Request.value)),
    ("concurrency", naturalValue b.concurrency), ("maxTotalBytes", naturalValue b.maxTotalBytes)]

def SessionCommand.operation : SessionCommand → Operation
  | .request tried _ => if tried then .sessionTryRequest else .sessionRequest
  | .close _ => .sessionClose
  | .getCookies _ => .getCookies
  | .setCookies _ _ => .setCookies
  | .exportCookies => .exportCookies
  | .importCookies _ => .importCookies
  | .rebindIdentity _ => .rebindIdentity

def SessionCommand.payload : SessionCommand → Value
  | .request _ r => r.value
  | .close o => o.value
  | .getCookies href => .string href
  | .setCookies href values => literal [("url", .string href), ("values", textsValue values)]
  | .exportCookies => .null
  | .importCookies snapshot => snapshot
  | .rebindIdentity identity => identityValue identity

def Command.operation : Command → Operation
  | .request tried _ => if tried then .tryRequest else .request
  | .requestMany _ => .requestMany
  | .capabilities => .capabilities
  | .requestStatus _ _ => .requestStatus
  | .cancelRequest _ _ => .cancelRequest
  | .createSession _ => .createSession
  | .session _ command => command.operation
  | .close _ => .close

def Command.payload : Command → Value
  | .request _ r => r.value
  | .requestMany b => b.value
  | .capabilities => .null
  | .requestStatus requestId partition =>
    literal [("requestId", .string requestId), ("partition", .string partition)]
  | .cancelRequest requestId partition =>
    literal [("requestId", .string requestId), ("partition", .string partition)]
  | .createSession o => o.value
  | .session id command => literal [("id", .string id), ("value", command.payload)]
  | .close o => o.value

/-- What `#call` posts. -/
def message (c : BridgeConfig) (id : ℕ) (command : Command) (timeoutMs : ℕ) : Value :=
  literal [("id", naturalValue id), ("operation", .string command.operation.name),
    ("value", command.payload), ("timeoutMs", naturalValue (min timeoutMs c.operationTimeoutMs))]

structure Order where
  id : ℕ
  operation : Operation
  timeoutMs : ℕ
  value : Value

def command (c : BridgeConfig) (value : Value) : Except SdkError Order :=
  (object value).bind fun input =>
  match operations.find? fun operation => isString (input.read "operation") operation.name with
  | none => .error invalid
  | some operation =>
    (integer 0 maxSafe (input.read "id")).bind fun id =>
    (integer 0 c.operationTimeoutMs (input.read "timeoutMs")).bind fun timeoutMs =>
    .ok ⟨id, operation, timeoutMs, input.read "value"⟩

def closeSettings (c : BridgeConfig) (value : Value) : Except SdkError CloseOptions :=
  (object value).bind fun input =>
  (given (input.read "drain") flag).bind fun drain =>
  (integer c.operationTimeoutMs maxSafe (input.read "timeoutMs")).bind fun timeoutMs =>
  .ok ⟨drain, min timeoutMs c.operationTimeoutMs⟩

/-- The checks of `batch` before its lanes start. -/
def batch (p : Platform) (c : BridgeConfig) (value : Value) : Except SdkError Batch :=
  (object value).bind fun input =>
  (arrayItems c.maxBatchRequests (input.read "requests")).bind fun items =>
  (items.mapM (request p c.maxRequestBytes)).bind fun requests =>
  (integer 1 c.maxBatchConcurrency (input.read "concurrency")).bind fun concurrency =>
  (integer 1 c.maxBatchBytes (input.read "maxTotalBytes")).bind fun maxTotalBytes =>
  .ok ⟨requests, concurrency, maxTotalBytes⟩

def contextNotFound : SdkError := localError .contextNotFound none

def managed (isManaged : Bool) : Except SdkError Unit := rejectIf (!isManaged) invalid

/-- `execute` of the session operations; the other operations do not get here. -/
def dispatchSession (p : Platform) (c : BridgeConfig) (isManaged : Bool) (operation : Operation)
    (input : Value) : Except SdkError SessionCommand :=
  match operation with
  | .sessionRequest => (sessionRequest p c.maxRequestBytes input).map (.request false)
  | .sessionTryRequest => (sessionRequest p c.maxRequestBytes input).map (.request true)
  | .sessionClose => (closeSettings c input).map .close
  | .getCookies => (managed isManaged).bind fun _ => (url p input).map .getCookies
  | .setCookies =>
    (object input).bind fun cookies =>
    (stringItems (cookies.read "values")).bind fun values =>
    (managed isManaged).bind fun _ =>
    (url p (cookies.read "url")).bind fun href => .ok (.setCookies href values)
  | .exportCookies => (managed isManaged).bind fun _ => .ok .exportCookies
  | .importCookies =>
    (managed isManaged).bind fun _ => (wire p "cookieSnapshot" input).map .importCookies
  | .rebindIdentity => (managed isManaged).bind fun _ => (identity input).map .rebindIdentity
  | _ => .error invalid

/-- What `dispatch` asks of the asynchronous core. `sessions` says which sessions the worker
has, and which of them are managed. -/
def dispatch (p : Platform) (c : BridgeConfig) (sessions : String → Option Bool)
    (operation : Operation) (value : Value) : Except SdkError Command :=
  match operation with
  | .request => (request p c.maxRequestBytes value).map (.request false)
  | .tryRequest => (request p c.maxRequestBytes value).map (.request true)
  | .requestMany => (batch p c value).map .requestMany
  | .capabilities => .ok .capabilities
  | .requestStatus =>
    (object value).bind fun input =>
    (text 128 (input.read "requestId")).bind fun requestId =>
    (text 1024 (input.read "partition")).bind fun partition =>
    .ok (.requestStatus requestId partition)
  | .cancelRequest =>
    (object value).bind fun input =>
    (text 128 (input.read "requestId")).bind fun requestId =>
    (text 1024 (input.read "partition")).bind fun partition =>
    .ok (.cancelRequest requestId partition)
  | .createSession => (sessionOptions p value).map .createSession
  | .close => (closeSettings c value).map .close
  | operation =>
    (object value).bind fun input =>
    (text 128 (input.read "id")).bind fun id =>
    match sessions id with
    | none => .error contextNotFound
    | some isManaged =>
      (dispatchSession p c isManaged operation (input.read "value")).map (.session id)

def SessionCommand.urls : SessionCommand → List String
  | .request _ r => [r.url]
  | .getCookies href => [href]
  | .setCookies href _ => [href]
  | _ => []

def Command.urls : Command → List String
  | .request _ r => [r.common.url]
  | .requestMany b => b.requests.map (·.common.url)
  | .createSession o => o.urls
  | .session _ command => command.urls
  | _ => []

def SessionCommand.bodies : SessionCommand → List Body
  | .request _ r => r.body.toList
  | _ => []

def Command.bodies : Command → List Body
  | .request _ r => r.common.body.toList
  | .requestMany b => b.requests.flatMap (·.common.body.toList)
  | .session _ command => command.bodies
  | _ => []

def SessionCall.needsManaged : SessionCall → Bool
  | .request _ _ => false
  | .close _ => false
  | _ => true

def isCompact : Body → Bool
  | .bytes view => view.compact
  | _ => true

/-- The worker still has the session of the call, as the client's handle knows it. -/
def Call.Owned (sessions : String → Option Bool) : Call → Prop
  | .session id call =>
    text 128 (.string id) = .ok id ∧
      ∃ isManaged, sessions id = some isManaged ∧ (call.needsManaged = true → isManaged = true)
  | _ => True

variable {p : Platform} {c : BridgeConfig} {sessions : String → Option Bool} {v : Value}

structure Sized (c : BridgeConfig) : Prop where
  operation : 0 < c.operationTimeoutMs ∧ c.operationTimeoutMs ≤ MAX_TIMEOUT_MS
  request : 0 < c.maxRequestBytes

theorem config_sized (h : config p v = .ok c) : Sized c := by
  simp only [config, bind_ok] at h
  obtain ⟨_, -, _, -, _, -, _, -, _, -, _, -, _, -, _, -, _, -, _, -, operation, hoperation, bytes,
    hbytes, _, -, _, -, _, -, h⟩ := h
  cases h
  exact ⟨⟨(integer_ok hoperation).1, (integer_ok hoperation).2.1⟩, (integer_ok hbytes).1⟩

theorem closeOptions_reread (hc : Sized c) {o : CloseOptions}
    (h : closeOptions c.operationTimeoutMs v = .ok o) :
    0 < o.timeoutMs ∧ closeSettings c o.value = .ok o := by
  simp only [closeOptions, bind_ok] at h
  obtain ⟨input, -, _, -, drain, hdrain, timeoutMs, htimeout, h⟩ := h
  cases h
  obtain ⟨hpos, hmax, -⟩ := integer_ok htimeout
  have hdrain' := given_reread flag_reread (fun _ => rfl) hdrain
  have hoperation := hc.operation
  have hle : min timeoutMs c.operationTimeoutMs ≤ MAX_TIMEOUT_MS := by omega
  have hpos' : 0 < min timeoutMs c.operationTimeoutMs := by omega
  have hread := integer_bounded hpos' (Nat.le_trans hle (by decide : MAX_TIMEOUT_MS ≤ maxSafe))
    (Nat.le_trans hle (by decide : MAX_TIMEOUT_MS ≤ maxSafe)) c.operationTimeoutMs
  refine ⟨hpos', ?_⟩
  simp [closeSettings, CloseOptions.value, Except.bind, hdrain', hread]

theorem collect_ok {n : ℕ} {items : List Value} {requests : List Request}
    (h : collect p c n items = .ok requests) :
    requests.length = items.length ∧
    (∀ r ∈ requests, ∃ item, request p c.maxRequestBytes item = .ok r) ∧
    (n ≤ c.maxRequestBytes →
      n + total (fun r => optionalBytes r.common.body) requests ≤ c.maxRequestBytes) := by
  induction items generalizing n requests with
  | nil =>
    cases h
    simp [total]
  | cons item rest ih =>
    simp only [collect, bind_ok, rejectIf_ok] at h
    obtain ⟨r, hr, _, hsize, h⟩ := h
    cases hrest : collect p c (n + optionalBytes r.common.body) rest with
    | error e =>
      rw [hrest] at h
      cases h
    | ok others =>
      rw [hrest] at h
      cases h
      obtain ⟨hlength, hmem, hsum⟩ := ih hrest
      have hfits : n + optionalBytes r.common.body ≤ c.maxRequestBytes := blt_eq_false.mp hsize
      refine ⟨by simp [hlength], ?_, ?_⟩
      · intro r' hr'
        rcases List.mem_cons.mp hr' with rfl | hr'
        · exact ⟨item, hr⟩
        · exact hmem r' hr'
      · intro _
        have := hsum hfits
        simp only [total]
        omega

theorem arrayItems_ok {maximum : ℕ} {items : List Value} (h : arrayItems maximum v = .ok items) :
    items.length ≤ maximum := by
  unfold arrayItems at h
  split at h
  · split at h
    · cases h
    · next hlen =>
      cases h
      simpa using hlen
  · cases h

theorem arrayItems_array {maximum : ℕ} {items : List Value} (h : items.length ≤ maximum) :
    arrayItems maximum (.array items) = .ok items := by
  have hlen : Nat.blt maximum items.length = false := blt_eq_false.mpr h
  simp [arrayItems, hlen]

theorem prepareBatch_reread (hp : p.Documented) {options settings : Value} {b : Batch}
    {timeoutMs : ℕ}
    (h : prepareBatch p c options settings = .ok (b, timeoutMs)) :
    0 < timeoutMs ∧ batch p c b.value =
      if (b.requests.map (·.common.url)).all fits then .ok b else .error invalid := by
  simp only [prepareBatch, bind_ok] at h
  obtain ⟨items, hitems, input, -, _, -, concurrency, hconcurrency, total, htotal,
    timeout, htimeout,
    requests, hrequests, h⟩ := h
  cases h
  obtain ⟨hlength, hmem, -⟩ := collect_ok hrequests
  have hread : (requests.map Request.value).mapM (request p c.maxRequestBytes) =
      if requests.all fun r => fits r.common.url then .ok requests else .error invalid := by
    refine mapM_written fun r hr => ?_
    obtain ⟨item, hitem⟩ := hmem r hr
    exact request_reread hp hitem
  have harray : arrayItems c.maxBatchRequests (.array (requests.map Request.value)) =
      .ok (requests.map Request.value) := by
    apply arrayItems_array
    have := arrayItems_ok hitems
    simpa [hlength] using this
  have hconcurrency' := integer_natural hconcurrency 1
  have htotal' := integer_natural htotal 1
  refine ⟨(integer_ok htimeout).1, ?_⟩
  by_cases hfits : (requests.all fun r => fits r.common.url) = true
  · simp [batch, Batch.value, Except.bind, harray, hread, hfits, hconcurrency', htotal',
      List.all_map, Function.comp_def]
  · simp [batch, Batch.value, Except.bind, harray, hread, hfits, List.all_map, Function.comp_def]

theorem stringItems_texts (texts : List String) : stringItems (textsValue texts) = .ok texts := by
  have h : (texts.map Value.string).mapM stringValue =
      if texts.all fun _ => true then .ok texts else .error invalid := mapM_written fun _ _ => rfl
  simpa [stringItems, textsValue] using h

theorem wire_ok {name : String} {value value' : Value} (h : wire p name value = .ok value') :
    value' = value ∧ wire p name value' = .ok value' := by
  simp only [wire, bind_ok] at h
  obtain ⟨_, haccepted, h⟩ := h
  cases h
  simp only [wire, haccepted, Except.bind, and_self]

theorem cookieField_transferable {n : ℕ} (h : cookieField v = .ok n) : Transferable v := by
  cases v <;> first | rfl | cases h

theorem collectCookies_transferable {n : ℕ} {items cookies : List Value}
    (h : collectCookies p n items = .ok cookies) : ∀ cookie ∈ cookies, Transferable cookie := by
  induction items generalizing n cookies with
  | nil =>
    cases h
    simp
  | cons item rest ih =>
    simp only [collectCookies, bind_ok] at h
    obtain ⟨fields, -, _, -, sizes, hsizes, _, -, wired, hwired, h⟩ := h
    cases hrest : collectCookies p (n + total id sizes) rest with
    | error e =>
      rw [hrest] at h
      cases h
    | ok others =>
      rw [hrest] at h
      cases h
      have hfields : Transferable (literal fields) := by
        apply transferable_literal
        intro f hf
        obtain ⟨size, hsize⟩ := mapM_defined hsizes f hf
        exact cookieField_transferable hsize
      rw [List.forall_mem_cons]
      exact ⟨(wire_ok hwired).1 ▸ hfields, ih hrest⟩

theorem importedSnapshot_ok {snapshot : Value} (h : importedSnapshot p v = .ok snapshot) :
    wire p "cookieSnapshot" snapshot = .ok snapshot ∧ Transferable snapshot := by
  simp only [importedSnapshot, bind_ok] at h
  obtain ⟨input, -, _, -, items, -, cookies, hcookies, partitionKey, -, h⟩ := h
  obtain ⟨rfl, hwire⟩ := wire_ok h
  refine ⟨hwire, transferable_literal ?_⟩
  simp [transferable_array (collectCookies_transferable hcookies)]

theorem dispatchSession_reread (hp : p.Documented) (hc : Sized c) {call : SessionCall}
    {cmd : SessionCommand} {timeoutMs : ℕ} {isManaged : Bool}
    (hmanaged : call.needsManaged = true → isManaged = true)
    (h : prepareSession p c call = .ok (cmd, timeoutMs)) :
    0 < timeoutMs ∧ dispatchSession p c isManaged cmd.operation cmd.payload =
      if cmd.urls.all fits then .ok cmd else .error invalid := by
  have hallowed : call.needsManaged = true → managed isManaged = .ok () := by
    intro hneeds
    rw [hmanaged hneeds]
    rfl
  cases call with
  | request tried options =>
    simp only [prepareSession, bind_ok] at h
    obtain ⟨r, hr, h⟩ := h
    cases h
    refine ⟨hc.operation.1, ?_⟩
    cases tried <;> by_cases hfits : fits r.url = true <;>
      simp [SessionCommand.operation, SessionCommand.payload, SessionCommand.urls, dispatchSession,
        sessionRequest_reread hp hr, hfits, Except.map]
  | close options =>
    simp only [prepareSession, bind_ok] at h
    obtain ⟨o, ho, h⟩ := h
    cases h
    obtain ⟨hpos, hread⟩ := closeOptions_reread hc ho
    exact ⟨hpos, by simp [SessionCommand.operation, SessionCommand.payload, SessionCommand.urls,
      dispatchSession, hread, Except.map]⟩
  | getCookies value =>
    simp only [prepareSession, bind_ok] at h
    obtain ⟨href, hhref, h⟩ := h
    cases h
    refine ⟨hc.operation.1, ?_⟩
    by_cases hfits : fits href = true <;>
      simp [SessionCommand.operation, SessionCommand.payload, SessionCommand.urls, dispatchSession,
        hallowed rfl, url_reread hp hhref, hfits, Except.bind, Except.map]
  | setCookies value values =>
    simp only [prepareSession, bind_ok] at h
    obtain ⟨texts, -, href, hhref, h⟩ := h
    cases h
    refine ⟨hc.operation.1, ?_⟩
    by_cases hfits : fits href = true <;>
      simp [SessionCommand.operation, SessionCommand.payload, SessionCommand.urls, dispatchSession,
        stringItems_texts, hallowed rfl, url_reread hp hhref, hfits, Except.bind]
  | exportCookies =>
    cases h
    refine ⟨hc.operation.1, ?_⟩
    simp [SessionCommand.operation, SessionCommand.urls, dispatchSession, hallowed rfl, Except.bind]
  | importCookies snapshot =>
    simp only [prepareSession, bind_ok] at h
    obtain ⟨imported, himported, h⟩ := h
    cases h
    refine ⟨hc.operation.1, ?_⟩
    simp [SessionCommand.operation, SessionCommand.payload, SessionCommand.urls, dispatchSession,
      hallowed rfl, (importedSnapshot_ok himported).1, Except.bind, Except.map]
  | rebindIdentity value =>
    simp only [prepareSession, bind_ok] at h
    obtain ⟨i, hi, h⟩ := h
    cases h
    refine ⟨hc.operation.1, ?_⟩
    simp [SessionCommand.operation, SessionCommand.payload, SessionCommand.urls, dispatchSession,
      hallowed rfl, identity_reread _ _ hi, Except.bind, Except.map]

theorem dispatch_reread (hp : p.Documented) (hc : Sized c) {call : Call} {cmd : Command}
    {timeoutMs : ℕ} (howned : call.Owned sessions) (h : prepare p c call = .ok (cmd, timeoutMs)) :
    0 < timeoutMs ∧ dispatch p c sessions cmd.operation cmd.payload =
      if cmd.urls.all fits then .ok cmd else .error invalid := by
  cases call with
  | request tried options =>
    simp only [prepare, bind_ok] at h
    obtain ⟨r, hr, h⟩ := h
    cases h
    refine ⟨hc.operation.1, ?_⟩
    cases tried <;> by_cases hfits : fits r.common.url = true <;>
      simp [Command.operation, Command.payload, Command.urls, dispatch, request_reread hp hr, hfits,
        Except.map]
  | requestMany options settings =>
    simp only [prepare, bind_ok] at h
    obtain ⟨⟨b, timeout⟩, hb, h⟩ := h
    cases h
    obtain ⟨hpos, hread⟩ := prepareBatch_reread hp hb
    refine ⟨hpos, ?_⟩
    by_cases hfits : (b.requests.map (·.common.url)).all fits = true <;>
      simp only [Command.operation, Command.payload, Command.urls, dispatch, hread, hfits,
        Except.map, if_true, Bool.false_eq_true, if_false]
  | capabilities =>
    cases h
    exact ⟨hc.operation.1, rfl⟩
  | requestStatus requestId partition =>
    simp only [prepare, bind_ok] at h
    obtain ⟨id, hid, scope, hscope, h⟩ := h
    cases h
    refine ⟨hc.operation.1, ?_⟩
    simp [Command.operation, Command.payload, Command.urls, dispatch, Except.bind,
      text_reread _ _ _ hid, text_reread _ _ _ hscope]
  | cancelRequest requestId partition =>
    simp only [prepare, bind_ok] at h
    obtain ⟨id, hid, scope, hscope, h⟩ := h
    cases h
    refine ⟨hc.operation.1, ?_⟩
    simp [Command.operation, Command.payload, Command.urls, dispatch, Except.bind,
      text_reread _ _ _ hid, text_reread _ _ _ hscope]
  | createSession options =>
    simp only [prepare, bind_ok] at h
    obtain ⟨o, ho, h⟩ := h
    cases h
    refine ⟨hc.operation.1, ?_⟩
    by_cases hfits : o.urls.all fits = true <;>
      simp only [Command.operation, Command.payload, Command.urls, dispatch,
        sessionOptions_reread hp ho, hfits, Except.map, if_true, Bool.false_eq_true, if_false]
  | session id call =>
    obtain ⟨hid, isManaged, hfound, hmanaged⟩ := howned
    simp only [prepare, bind_ok] at h
    obtain ⟨⟨command, timeout⟩, hcommand, h⟩ := h
    cases h
    obtain ⟨hpos, hread⟩ := dispatchSession_reread hp hc hmanaged hcommand
    refine ⟨hpos, ?_⟩
    have hdispatch : dispatch p c sessions command.operation
        (literal [("id", .string id), ("value", command.payload)]) =
        (dispatchSession p c isManaged command.operation command.payload).map (.session id) := by
      cases command with
      | request tried r =>
        cases tried <;> simp [dispatch, SessionCommand.operation, Except.bind, hid, hfound]
      | _ => simp [dispatch, SessionCommand.operation, Except.bind, hid, hfound]
    by_cases hfits : command.urls.all fits = true <;>
      simp only [Command.operation, Command.payload, Command.urls, hdispatch, hread, hfits,
        Except.map, if_true, Bool.false_eq_true, if_false]
  | close options =>
    simp only [prepare, bind_ok] at h
    obtain ⟨o, ho, h⟩ := h
    cases h
    obtain ⟨hpos, hread⟩ := closeOptions_reread hc ho
    exact ⟨hpos, by simp [Command.operation, Command.payload, Command.urls, dispatch, hread,
      Except.map]⟩

theorem sessionPayload_transferable {call : SessionCall} {cmd : SessionCommand} {timeoutMs : ℕ}
    (h : prepareSession p c call = .ok (cmd, timeoutMs)) : Transferable cmd.payload := by
  cases call with
  | importCookies snapshot =>
    simp only [prepareSession, bind_ok] at h
    obtain ⟨imported, himported, h⟩ := h
    cases h
    exact (importedSnapshot_ok himported).2
  | setCookies value values =>
    simp only [prepareSession, bind_ok] at h
    obtain ⟨texts, -, href, -, h⟩ := h
    cases h
    exact transferable_literal (by simp)
  | exportCookies =>
    cases h
    exact transferable_null
  | _ =>
    simp only [prepareSession, bind_ok] at h
    obtain ⟨a, -, h⟩ := h
    cases h
    simp [SessionCommand.payload]

theorem payload_transferable {call : Call} {cmd : Command} {timeoutMs : ℕ}
    (h : prepare p c call = .ok (cmd, timeoutMs)) : Transferable cmd.payload := by
  cases call with
  | capabilities =>
    cases h
    exact transferable_null
  | session id call =>
    simp only [prepare, bind_ok] at h
    obtain ⟨⟨command, timeout⟩, hcommand, h⟩ := h
    cases h
    exact transferable_literal (by simp [sessionPayload_transferable hcommand])
  | requestMany options settings =>
    simp only [prepare, bind_ok] at h
    obtain ⟨⟨b, timeout⟩, -, h⟩ := h
    cases h
    have hrequests : Transferable (.array (b.requests.map Request.value)) :=
      transferable_array (by simp)
    exact transferable_literal (by simp [hrequests])
  | requestStatus requestId partition =>
    simp only [prepare, bind_ok] at h
    obtain ⟨a, -, b, -, h⟩ := h
    cases h
    exact transferable_literal (by simp)
  | cancelRequest requestId partition =>
    simp only [prepare, bind_ok] at h
    obtain ⟨a, -, b, -, h⟩ := h
    cases h
    exact transferable_literal (by simp)
  | _ =>
    simp only [prepare, bind_ok] at h
    obtain ⟨a, -, h⟩ := h
    cases h
    simp [Command.payload]

theorem sessionRequest_body {r : SessionRequest}
    (h : sessionRequest p c.maxRequestBytes v = .ok r) :
    (∀ b ∈ r.body, isCompact b = true) ∧ optionalBytes r.body ≤ c.maxRequestBytes := by
  simp only [sessionRequest, bind_ok, rejectIf_ok] at h
  obtain ⟨_, -, _, -, body, -, _, hsize, _, -, _, -, _, -, _, -, _, -, _, -, _, -, h⟩ := h
  cases h
  cases body with
  | none => simp [optionalBytes]
  | some b =>
    refine ⟨?_, ?_⟩
    · cases b <;> simp [Body.compacted, isCompact]
    · simpa [optionalBytes] using blt_eq_false.mp hsize

theorem request_body {r : Request} (h : request p c.maxRequestBytes v = .ok r) :
    (∀ b ∈ r.common.body, isCompact b = true) ∧
      optionalBytes r.common.body ≤ c.maxRequestBytes := by
  simp only [request, bind_ok] at h
  obtain ⟨_, -, common, hcommon, _, -, h⟩ := h
  have hbody := sessionRequest_body hcommon
  split at h
  · obtain ⟨_, -, h⟩ := bind_ok.mp h
    cases h
    exact hbody
  · split at h
    · obtain ⟨_, -, h⟩ := bind_ok.mp h
      cases h
      exact hbody
    · cases h

theorem sum_flatMap_bodies (requests : List Request) :
    total Body.byteLength (requests.flatMap (·.common.body.toList)) =
      total (fun r => optionalBytes r.common.body) requests := by
  induction requests with
  | nil => rfl
  | cons r rest ih =>
    rw [List.flatMap_cons, total, ← ih]
    cases r.common.body <;> simp [optionalBytes, total]

theorem bodies_bounded {call : Call} {cmd : Command} {timeoutMs : ℕ}
    (h : prepare p c call = .ok (cmd, timeoutMs)) :
    (∀ b ∈ cmd.bodies, isCompact b = true) ∧
      total Body.byteLength cmd.bodies ≤ c.maxRequestBytes := by
  have hone : ∀ body : Option Body, (∀ b ∈ body, isCompact b = true) →
      optionalBytes body ≤ c.maxRequestBytes → (∀ b ∈ body.toList, isCompact b = true) ∧
        total Body.byteLength body.toList ≤ c.maxRequestBytes := by
    intro body hcompact hsize
    cases body with
    | none => simp [total]
    | some b => simpa [optionalBytes, total] using And.intro hcompact hsize
  cases call with
  | request tried options =>
    simp only [prepare, bind_ok] at h
    obtain ⟨r, hr, h⟩ := h
    cases h
    exact hone r.common.body (request_body hr).1 (request_body hr).2
  | requestMany options settings =>
    simp only [prepare, prepareBatch, bind_ok] at h
    obtain ⟨_, ⟨items, -, _, -, _, -, _, -, _, -, _, -, requests, hrequests, hb⟩, h⟩ := h
    cases hb
    cases h
    obtain ⟨-, hmem, hsum⟩ := collect_ok hrequests
    constructor
    · intro b hb
      obtain ⟨r, hr, hb⟩ := List.mem_flatMap.mp hb
      obtain ⟨item, hitem⟩ := hmem r hr
      exact (request_body hitem).1 b (by simpa using hb)
    · have hle := hsum (Nat.zero_le _)
      rw [Nat.zero_add] at hle
      exact (sum_flatMap_bodies requests).trans_le hle
  | session id call =>
    simp only [prepare, bind_ok] at h
    obtain ⟨⟨command, timeout⟩, hcommand, h⟩ := h
    cases h
    cases call with
    | request tried options =>
      simp only [prepareSession, bind_ok] at hcommand
      obtain ⟨r, hr, h⟩ := hcommand
      cases h
      exact hone r.body (sessionRequest_body hr).1 (sessionRequest_body hr).2
    | setCookies value values =>
      simp only [prepareSession, bind_ok] at hcommand
      obtain ⟨_, -, _, -, h⟩ := hcommand
      cases h
      simp [Command.bodies, SessionCommand.bodies, total]
    | exportCookies =>
      cases hcommand
      simp [Command.bodies, SessionCommand.bodies, total]
    | _ =>
      simp only [prepareSession, bind_ok] at hcommand
      obtain ⟨_, -, h⟩ := hcommand
      cases h
      simp [Command.bodies, SessionCommand.bodies, total]
  | capabilities =>
    cases h
    simp [Command.bodies, total]
  | requestStatus requestId partition =>
    simp only [prepare, bind_ok] at h
    obtain ⟨_, -, _, -, h⟩ := h
    cases h
    simp [Command.bodies, total]
  | cancelRequest requestId partition =>
    simp only [prepare, bind_ok] at h
    obtain ⟨_, -, _, -, h⟩ := h
    cases h
    simp [Command.bodies, total]
  | _ =>
    simp only [prepare, bind_ok] at h
    obtain ⟨_, -, h⟩ := h
    cases h
    simp [Command.bodies, total]

theorem find_operation (operation : Operation) :
    (operations.find? fun o => isString (.string operation.name) o.name) = some operation := by
  cases operation <;> rfl

theorem command_message (hc : Sized c) {cmd : Command} {id timeoutMs : ℕ} (hid : 0 < id)
    (hlast : id ≤ maxSafe) (htimeout : 0 < timeoutMs) :
    command c (message c id cmd timeoutMs) =
      .ok ⟨id, cmd.operation, min timeoutMs c.operationTimeoutMs, cmd.payload⟩ := by
  have hoperation := hc.operation
  have hsafe : MAX_TIMEOUT_MS ≤ maxSafe := by decide
  have hid' := integer_bounded hid hlast hlast 0
  have htimeout' : integer 0 c.operationTimeoutMs
      (naturalValue (min timeoutMs c.operationTimeoutMs)) =
        .ok (min timeoutMs c.operationTimeoutMs) :=
    integer_bounded (by omega) (Nat.min_le_right _ _) (by omega) 0
  simp [command, message, Except.bind, find_operation, hid', htimeout']

/-- The worker reads the configuration of the client, and every message as the command that the
client made of the call. Both fail where a URL got longer than a text may be. -/
theorem command_arrives (hp : p.Documented) (hconfig : config p v = .ok c) {call : Call}
    {cmd : Command} {id timeoutMs : ℕ} (hcall : prepare p c call = .ok (cmd, timeoutMs))
    (howned : call.Owned sessions) (hid : 0 < id) (hlast : id ≤ maxSafe) :
    (∃ started, clone c.value = some started ∧
      workerConfig p started = if fits c.client.baseUrl then .ok c else .error invalid) ∧
    ∃ copy order, clone (message c id cmd timeoutMs) = some copy ∧ command c copy = .ok order ∧
      order.id = id ∧ order.timeoutMs = min timeoutMs c.operationTimeoutMs ∧
      (dispatch p c sessions order.operation order.value =
        if cmd.urls.all fits then .ok cmd else .error invalid) ∧
      (∀ b ∈ cmd.bodies, isCompact b = true) ∧
      total Body.byteLength cmd.bodies ≤ c.maxRequestBytes := by
  have hc := config_sized hconfig
  obtain ⟨htimeout, hdispatch⟩ := dispatch_reread hp hc howned hcall
  have hmessage : Transferable (message c id cmd timeoutMs) :=
    transferable_literal (by simp [payload_transferable hcall])
  refine ⟨⟨c.value, transferable_config c, config_reread hp hconfig⟩, message c id cmd timeoutMs, _,
    hmessage, command_message hc hid hlast htimeout, rfl, rfl, hdispatch, bodies_bounded hcall⟩

def plainPlatform : Platform where
  parseUrl s :=
    if s = "http://h" ∨ s = "http://h/" then some ⟨"http:", "", "", "h", "", "", "http://h/"⟩
    else none
  acceptsHeaders _ := true
  validateWire _ _ := true

theorem plainPlatform_documented : plainPlatform.Documented := by
  constructor
  · intro s u h _
    simp only [plainPlatform] at h ⊢
    split at h
    · cases h
      rfl
    · cases h
  · rfl

def plainConfig : Value :=
  literal [("baseUrl", .url "http://h/"), ("token", .string "0123456789abcdef0123456789abcdef"),
    ("limits", literal [("maxQueued", .number 0)])]

def plainOptions : Value :=
  literal [("url", .string "http://h"), ("method", .string "POST"),
    ("body", .bytes ⟨[104, 105], 7, 64, true⟩), ("headers", .headers [("accept", "a")]),
    ("partition", .string "p"), ("contextId", .string "c")]

def plainSettings : BridgeConfig :=
  ⟨⟨"http://h/", "0123456789abcdef0123456789abcdef", none, none, none, none,
    some ⟨none, none, some 0, none, none⟩⟩, 10000,
    60000, 16777216, 128, 16777216, 8⟩

def plainCommand : Command :=
  .request true ⟨⟨"http://h/", "POST", some [("accept", "a")],
    some (.bytes ⟨[104, 105], 0, 2, false⟩),
    none, none, none, none⟩, "p", .contextId "c"⟩

theorem command_arrives_plain :
    ∃ copy order, clone (message plainSettings 1 plainCommand 60000) = some copy ∧
      command plainSettings copy = .ok order ∧ order.id = 1 ∧ order.timeoutMs = 60000 ∧
      dispatch plainPlatform plainSettings (fun _ => none) order.operation order.value =
        .ok plainCommand := by
  have hconfig : config plainPlatform plainConfig = .ok plainSettings := rfl
  have hcall : prepare plainPlatform plainSettings (.request true plainOptions) =
      .ok (plainCommand, 60000) := rfl
  have howned : Call.Owned (fun _ => none) (.request true plainOptions) := trivial
  obtain ⟨-, copy, order, hcopy, horder, hid, htimeout, hdispatch, -⟩ :=
    command_arrives plainPlatform_documented hconfig hcall howned Nat.one_pos (by decide)
  exact ⟨copy, order, hcopy, horder, hid, htimeout, hdispatch⟩

end SyncCommands
