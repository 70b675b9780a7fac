import Ja3Proxy.AllowedOrigins
import Ja3Proxy.HeaderShaping
import Mathlib.Tactic.IntervalCases

/-! The request that a worker hands to the upstream client (`NetworkClient::apply_headers`,
`shape_request` and the beginning of `transfer`). The fields of the caller come first, then the
cookies of the jar and the length of the body. -/
namespace UpstreamRequest

open AllowedOrigins (CookieMode)
open AsciiText (HeaderValue lower)
open ExceptRules HeaderShaping TransportErrors

/-- `HeaderName::from_bytes`, `HeaderValue::from_str` and `RequestBuilder::header`. -/
structure Http where
  name : String → Option String
  value : String → Option HeaderValue
  header : HeaderMap → String → HeaderValue → HeaderMap

/-- Names are kept in lower case, and a field that is not there yet is added. -/
structure Http.Documented (h : Http) : Prop where
  lower : ∀ text name, h.name text = some name → name = lower text
  header : ∀ m name value, name ∉ m.keys → h.header m name value = m.append name value

def userAgent : String := "user-agent"

/-- What requests read of a `NetworkClient`. The fixed user agent is a default as well. -/
structure Client where
  closed : Bool
  fixedUserAgent : Option HeaderValue
  profile : TlsProfile
  defaultHeaders : HeaderMap
  agent_default : ∀ value ∈ fixedUserAgent, defaultHeaders.getAll userAgent = [value]

def userAgentOf (h : Http) : Option String → Except TransportError (Option HeaderValue)
  | none => .ok none
  | some value =>
    if Nat.blt 1024 value.utf8ByteSize || value.isEmpty then .error (.fromCode .invalidRequest)
    else
      match h.value value with
      | some value => .ok (some value)
      | none => .error (.fromCode .invalidRequest)

/-- The headers of `with_resolver`; `emulated` are those of the profile, if it emulates any. -/
def Client.withResolver (h : Http) (profile : TlsProfile) (emulated : HeaderMap)
    (agent : Option String) : Except TransportError Client :=
  (userAgentOf h agent).map fun
    | none => ⟨false, none, profile, emulated, fun _ hnone => by cases hnone⟩
    | some value => ⟨false, some value, profile, emulated.insert userAgent value, by simp⟩

def forbiddenHeader (name : String) : Bool :=
  ["host", "content-length", "transfer-encoding", "connection", "keep-alive",
    "proxy-authorization", "proxy-authenticate", "proxy-connection", "te", "trailer", "upgrade",
    "traceparent", "tracestate", "baggage"].contains name

/-- One iteration of the loop in `apply_headers`, with `user_agent_seen`. -/
def Client.applyHeader (h : Http) (c : Client) (m : HeaderMap) (seen : Bool)
    (field : String × String) : Except TransportError (HeaderMap × Bool) :=
  match h.name field.1 with
  | none => .error (.fromCode .invalidRequest)
  | some name =>
    (rejectIf (forbiddenHeader name) (.fromCode .invalidRequest)).bind fun _ =>
    match h.value field.2 with
    | none => .error (.fromCode .invalidRequest)
    | some value =>
      if name == userAgent then
        (rejectIf (seen || c.fixedUserAgent.any (· != value)) (.fromCode .contextConflict)).bind
          fun _ => .ok (m.append name value, true)
      else .ok (m.append name value, seen)

def Client.applyLoop (h : Http) (c : Client) (m : HeaderMap) (seen : Bool) :
    List (String × String) → Except TransportError HeaderMap
  | [] => .ok m
  | field :: rest => (c.applyHeader h m seen field).bind fun s => c.applyLoop h s.1 s.2 rest

/-- The builder, as far as headers are concerned. The priority is the weight on the wire. -/
structure Request where
  headers : HeaderMap
  origHeaders : Option (List String)
  priority : Option ℕ

def headersPriority (shaped : Shaped) : Option ℕ := shaped.weight.map (· - 1)

def shapeRequest (c : Client) (method : String) (hasBody : Bool) (headers : HeaderMap)
    (order : WireOrder) : Request :=
  let shaped := c.profile.shaping.shape method hasBody headers c.defaultHeaders order
  ⟨headers, shaped.origHeaders, headersPriority shaped⟩

def Client.applyHeaders (h : Http) (c : Client) (method : String) (hasBody : Bool)
    (headers : List (String × String)) (order : WireOrder) : Except TransportError Request :=
  (rejectIf c.closed (.fromCode .contextNotFound)).bind fun _ =>
  (c.applyLoop h .empty false headers).map fun m => shapeRequest c method hasBody m order

structure Fields where
  method : String
  headers : List (String × String)
  hasBody : Bool
  bodyLength : Option ℕ
  headerOrder : WireOrder

structure Owner where
  client : Client
  cookieMode : Option CookieMode

/-- What the other steps come to: `Url::parse` and `Method::from_bytes`, opening the jar of the
context with its `Cookie` header, and `NetworkClient::request`. -/
structure Surroundings where
  url : Bool
  method : Bool
  opened : Except TransportError (Option String)
  requested : Except TransportError Unit

/-- The cookies of a managed context, which the caller may not send itself. -/
def Owner.cookieAccess (o : Owner) (s : Surroundings) (m : Fields) :
    Except TransportError (Option String) :=
  match o.cookieMode with
  | none => .ok none
  | some mode =>
    (rejectIf (mode == .managed && m.headers.any fun field => lower field.1 == "cookie")
      (.fromCode .contextConflict)).bind fun _ =>
    s.opened.map fun cookies => if mode == .managed then cookies else none

/-- A value that is none spoils the builder. -/
def addCookies (h : Http) (cookies : Option String) (r : Request) : Option Request :=
  match cookies with
  | none => some r
  | some text => (h.value text).map fun value =>
      { r with headers := h.header r.headers "cookie" value }

/-- `HeaderValue::from(u64)` -/
def digits (n : ℕ) : HeaderValue := AsciiText.bytes n.repr

def addLength (h : Http) (m : Fields) (r : Request) : Request :=
  match m.hasBody, m.bodyLength with
  | true, some length => { r with headers := h.header r.headers "content-length" (digits length) }
  | _, _ => r

/-- `transfer` up to sending. Without a request the builder is spoilt and cannot be sent. -/
def prepare (h : Http) (o : Owner) (s : Surroundings) (m : Fields) :
    Except TransportError (Option Request) :=
  (rejectIf (!s.url) (.fromCode .invalidRequest)).bind fun _ =>
  (o.cookieAccess s m).bind fun cookies =>
  (rejectIf (!s.method) (.fromCode .invalidRequest)).bind fun _ =>
  s.requested.bind fun _ =>
  (o.client.applyHeaders h m.method m.hasBody m.headers m.headerOrder).map fun r =>
    (addCookies h cookies r).map (addLength h m)

variable {h : Http} {c : Client} {m m' : HeaderMap} {seen : Bool} {field : String × String}
  {headers : List (String × String)}

def parsed (h : Http) (field : String × String) : Option (String × HeaderValue) :=
  (h.name field.1).bind fun name => (h.value field.2).map fun value => (name, value)

def callerFields (h : Http) (headers : List (String × String)) : List (String × HeaderValue) :=
  headers.filterMap (parsed h)

def values (name : String) (fields : List (String × HeaderValue)) : List HeaderValue :=
  (fields.filter fun field => field.1 == name).map Prod.snd

def Proper (h : Http) (field : String × String) : Prop :=
  ∃ name value, parsed h field = some (name, value) ∧ forbiddenHeader name = false

def Agreed (c : Client) (seen : Bool) (agents : List HeaderValue) : Prop :=
  agents.length + seen.toNat ≤ 1 ∧ ∀ value ∈ agents, ∀ fixed ∈ c.fixedUserAgent, fixed = value

def extend (m : HeaderMap) (fields : List (String × HeaderValue)) : HeaderMap :=
  fields.foldl (fun m field => m.append field.1 field.2) m

theorem getAll_extend (fields : List (String × HeaderValue)) (m : HeaderMap) (name : String) :
    (extend m fields).getAll name = m.getAll name ++ values name fields := by
  induction fields generalizing m with
  | nil => simp [extend, values]
  | cons field rest ih =>
    have hrest : (extend m (field :: rest)).getAll name =
        (m.append field.1 field.2).getAll name ++ values name rest := ih _
    rw [hrest, HeaderMap.getAll_append]
    by_cases hname : name = field.1
    · subst hname
      simp [values]
    · have hother : (field.1 == name) = false := by simpa using fun heq => hname heq.symm
      simp [values, hname, hother]

theorem values_cons (name : String) (field : String × HeaderValue)
    (rest : List (String × HeaderValue)) :
    values name (field :: rest) =
      if field.1 = name then field.2 :: values name rest else values name rest := by
  by_cases hname : field.1 = name <;> simp [values, hname]

theorem callerFields_cons {name : String} {value : HeaderValue}
    (hparsed : parsed h field = some (name, value)) :
    callerFields h (field :: headers) = (name, value) :: callerFields h headers := by
  simp [callerFields, hparsed]

/-- What one iteration does with a field. -/
theorem applyHeader_cases (h : Http) (c : Client) (m : HeaderMap) (seen : Bool)
    (field : String × String) :
    (∃ name value, parsed h field = some (name, value) ∧ forbiddenHeader name = false ∧
      (name = userAgent → Agreed c seen [value]) ∧
      c.applyHeader h m seen field = .ok (m.append name value, seen || name == userAgent)) ∨
    (¬Proper h field ∧ c.applyHeader h m seen field = .error (.fromCode .invalidRequest)) ∨
    (∃ value, parsed h field = some (userAgent, value) ∧ ¬Agreed c seen [value] ∧
      c.applyHeader h m seen field = .error (.fromCode .contextConflict)) := by
  unfold Client.applyHeader
  cases hname : h.name field.1 with
  | none =>
    refine .inr (.inl ⟨?_, rfl⟩)
    rintro ⟨name, value, hparsed, -⟩
    simp [parsed, hname] at hparsed
  | some name =>
    cases hforbidden : forbiddenHeader name with
    | true =>
      refine .inr (.inl ⟨?_, by simp [rejectIf, Except.bind, hforbidden]⟩)
      rintro ⟨name', value, hparsed, hallowed⟩
      simp only [parsed, hname, Option.bind_some, Option.map_eq_some_iff, Prod.mk.injEq] at hparsed
      obtain ⟨_, _, rfl, rfl⟩ := hparsed
      rw [hforbidden] at hallowed
      cases hallowed
    | false =>
      cases hvalue : h.value field.2 with
      | none =>
        refine .inr (.inl ⟨?_, by simp [rejectIf, Except.bind, hforbidden]⟩)
        rintro ⟨name', value, hparsed, -⟩
        simp [parsed, hvalue, hname] at hparsed
      | some value =>
        have hparsed : parsed h field = some (name, value) := by simp [parsed, hname, hvalue]
        by_cases hagent : name = userAgent
        · subst hagent
          by_cases hagreed : Agreed c seen [value]
          · refine .inl ⟨userAgent, value, hparsed, hforbidden, fun _ => hagreed, ?_⟩
            have hseen : seen = false := by
              cases hseen : seen with
              | false => rfl
              | true =>
                rw [hseen] at hagreed
                exact absurd hagreed.1 (by simp)
            have hfixed : c.fixedUserAgent.any (· != value) = false := by
              cases hfixed : c.fixedUserAgent with
              | none => rfl
              | some fixed => simpa using hagreed.2 value List.mem_cons_self fixed hfixed
            simp [rejectIf, Except.bind, hforbidden, hseen, hfixed]
          · refine .inr (.inr ⟨value, hparsed, hagreed, ?_⟩)
            have hconflict : (seen || c.fixedUserAgent.any (· != value)) = true := by
              by_contra hnot
              apply hagreed
              simp only [Bool.or_eq_true, not_or, Bool.not_eq_true] at hnot
              refine ⟨by simp [hnot.1], ?_⟩
              intro value' hvalue' fixed hfixed
              rw [List.mem_singleton.mp hvalue']
              have hsame := hnot.2
              rw [Option.mem_def.mp hfixed] at hsame
              simpa using hsame
            simp [rejectIf, Except.bind, hforbidden, hconflict]
        · refine .inl ⟨name, value, hparsed, hforbidden, fun h => absurd h hagent, ?_⟩
          have hother : (name == userAgent) = false := by simpa using hagent
          simp [rejectIf, Except.bind, hforbidden, hother]

theorem agreed_cons {value : HeaderValue} {agents : List HeaderValue} :
    Agreed c seen (value :: agents) ↔ Agreed c seen [value] ∧ Agreed c true agents := by
  unfold Agreed
  simp only [List.length_cons, List.length_nil, List.mem_cons, List.not_mem_nil, or_false,
    forall_eq, forall_eq_or_imp, Bool.toNat_true]
  constructor
  · rintro ⟨hone, hvalue, hrest⟩
    exact ⟨⟨by omega, hvalue⟩, by omega, hrest⟩
  · rintro ⟨⟨hone, hvalue⟩, hnone, hrest⟩
    exact ⟨by omega, hvalue, hrest⟩

/-- The user agents of a field that is taken and of those behind it. -/
theorem agreed_step {name : String} {value : HeaderValue} {fields : List (String × HeaderValue)}
    (hagreed : name = userAgent → Agreed c seen [value]) :
    Agreed c seen (values userAgent ((name, value) :: fields)) ↔
      Agreed c (seen || name == userAgent) (values userAgent fields) := by
  rw [values_cons]
  by_cases hagent : name = userAgent
  · have hseen : (seen || name == userAgent) = true := by simp [hagent]
    rw [if_pos hagent, hseen, agreed_cons]
    exact and_iff_right (hagreed hagent)
  · have hother : (name == userAgent) = false := by simpa using hagent
    simp [hagent, hother]

/-- The loop takes exactly the lists of proper fields with one user agent. -/
theorem applyLoop_ok : c.applyLoop h m seen headers = .ok m' ↔
    (∀ field ∈ headers, Proper h field) ∧
      Agreed c seen (values userAgent (callerFields h headers)) ∧
      m' = extend m (callerFields h headers) := by
  induction headers generalizing m seen with
  | nil => simp [Client.applyLoop, Agreed, values, callerFields, extend, eq_comm, Bool.toNat_le]
  | cons field rest ih =>
    rw [Client.applyLoop, List.forall_mem_cons]
    rcases applyHeader_cases h c m seen field with ⟨name, value, hparsed, hallowed, hagreed, hok⟩ |
      ⟨hproper, herror⟩ | ⟨value, hparsed, hagreed, herror⟩
    · have hproper : Proper h field := ⟨name, value, hparsed, hallowed⟩
      rw [hok, callerFields_cons hparsed, agreed_step hagreed]
      simp only [Except.bind, ih, hproper, true_and]
      rfl
    · rw [herror]
      simp [Except.bind, hproper]
    · rw [herror, callerFields_cons hparsed, values_cons, if_pos rfl, agreed_cons]
      simp [Except.bind, hagreed]

/-- Why the loop stops. -/
theorem applyLoop_error {e : TransportError} (he : c.applyLoop h m seen headers = .error e) :
    e = .fromCode .invalidRequest ∧ (∃ field ∈ headers, ¬Proper h field) ∨
      e = .fromCode .contextConflict ∧
        ¬Agreed c seen (values userAgent (callerFields h headers)) := by
  induction headers generalizing m seen with
  | nil => cases he
  | cons field rest ih =>
    rw [Client.applyLoop] at he
    rcases applyHeader_cases h c m seen field with ⟨name, value, hparsed, hallowed, hagreed, hok⟩ |
      ⟨hproper, herror⟩ | ⟨value, hparsed, hagreed, herror⟩
    · rw [hok] at he
      rcases ih he with ⟨heq, other, hother, hproper⟩ | ⟨heq, hnot⟩
      · exact .inl ⟨heq, other, List.mem_cons_of_mem field hother, hproper⟩
      · refine .inr ⟨heq, ?_⟩
        rw [callerFields_cons hparsed, agreed_step hagreed]
        exact hnot
    · rw [herror] at he
      cases he
      exact .inl ⟨rfl, field, List.mem_cons_self, hproper⟩
    · rw [herror] at he
      cases he
      refine .inr ⟨rfl, ?_⟩
      rw [callerFields_cons hparsed, values_cons, if_pos rfl, agreed_cons]
      exact fun hboth => hagreed hboth.1

theorem weight_range (urgency : ℕ) : 1 ≤ weight urgency ∧ weight urgency ≤ 256 := by
  unfold weight
  have hle : min urgency 7 ≤ 7 := Nat.min_le_right _ _
  generalize min urgency 7 = n at hle
  interval_cases n <;> decide

/-- The weight on the wire is a byte. -/
theorem priority_le {shaping : RequestShaping} {method : String} {hasBody : Bool}
    {caller defaults : HeaderMap} {order : WireOrder} :
    ∀ priority ∈ headersPriority (shaping.shape method hasBody caller defaults order),
      priority ≤ 255 := by
  intro priority hpriority
  simp only [headersPriority, RequestShaping.shape, Option.mem_def,
    Option.map_eq_some_iff] at hpriority
  obtain ⟨w, hw, rfl⟩ := hpriority
  split at hw
  · obtain ⟨text, -, rfl⟩ := Option.map_eq_some_iff.mp hw
    have := weight_range (urgency text)
    omega
  · cases hw

theorem requestKind_body (method : String) (header : String → Option (List Char)) :
    ∃ navigation : Bool, requestKind method true header =
      if navigation then .navigation else .fetchWithBody :=
  ⟨_, rfl⟩

/-- A request with a body has a place for its length. -/
theorem length_known (method : String) (header : String → Option (List Char)) :
    "content-length" ∈ (headerOrder.template (requestKind method true header)).before := by
  obtain ⟨navigation, hkind⟩ := requestKind_body method header
  rw [hkind]
  cases navigation <;> decide

theorem cookie_known (kind : RequestKind) : "cookie" ∈ (headerOrder.template kind).after := by
  cases kind <;> decide

/-- Every name is listed once, and so are the fields of the service. -/
theorem shaped_order {profile : TlsProfile} {method : String} {hasBody : Bool}
    {caller defaults : HeaderMap} {order : WireOrder} {names : List String}
    (hnames : (profile.shaping.shape method hasBody caller defaults order).origHeaders =
      some names) :
    names.Nodup ∧ (∀ name, name ∈ caller.keys ∨ name ∈ defaults.keys → name ∈ names) ∧
      "cookie" ∈ names ∧ (hasBody = true → "content-length" ∈ names) := by
  cases order with
  | caller => cases hnames
  | browser =>
    rw [shape_browser, Option.map_eq_some_iff] at hnames
    obtain ⟨template, htemplate, rfl⟩ := hnames
    obtain rfl := shaping_order htemplate
    have hnodup := sentNames_nodup caller defaults
    refine ⟨HeaderTemplate.order_nodup _ (headerOrder_nodup _) hnodup,
      fun name hname => HeaderTemplate.mem_order _ hnodup (mem_sentNames.mpr hname), ?_, ?_⟩
    · exact List.mem_append_right _ (cookie_known _)
    · rintro rfl
      exact List.mem_append_left _ (List.mem_append_left _ (length_known method _))

variable {o : Owner} {s : Surroundings} {fields : Fields} {cookies : Option String}

def Owner.managed (o : Owner) : Bool := o.cookieMode == some .managed

def Unmixed (o : Owner) (headers : List (String × String)) : Prop :=
  o.managed = true → ∀ field ∈ headers, lower field.1 ≠ "cookie"

structure Ready (o : Owner) (s : Surroundings) : Prop where
  url : s.url = true
  opened : o.cookieMode.isSome = true → ∃ cookies, s.opened = .ok cookies
  method : s.method = true
  requested : s.requested = .ok ()
  closed : o.client.closed = false

def jarCookies (o : Owner) (s : Surroundings) : Option String :=
  match s.opened with
  | .ok cookies => if o.managed then cookies else none
  | .error _ => none

theorem unmixed_iff (mode : CookieMode) {headers : List (String × String)} :
    (mode == .managed && headers.any fun field => lower field.1 == "cookie") = false ↔
      (mode = .managed → ∀ field ∈ headers, lower field.1 ≠ "cookie") := by
  cases mode with
  | external => exact ⟨fun _ h => (by cases h), fun _ => rfl⟩
  | managed =>
    rw [beq_self_eq_true, Bool.true_and, List.any_eq_false]
    constructor
    · exact fun h _ field hfield heq => h field hfield (beq_iff_eq.mpr heq)
    · exact fun h field hfield heq => h rfl field hfield (beq_iff_eq.mp heq)

theorem cookieAccess_ok : o.cookieAccess s fields = .ok cookies ↔
    (o.cookieMode.isSome = true → ∃ opened, s.opened = .ok opened) ∧ Unmixed o fields.headers ∧
      cookies = jarCookies o s := by
  unfold Owner.cookieAccess Unmixed jarCookies Owner.managed
  cases hmode : o.cookieMode with
  | none => cases hopened : s.opened <;> simp [eq_comm]
  | some mode =>
    simp only [bind_ok, rejectIf_ok, unmixed_iff, exists_const, beq_iff_eq, Option.some.injEq,
      Option.isSome_some, true_implies]
    cases hopened : s.opened with
    | error e => simp [Except.map]
    | ok opened =>
      constructor
      · rintro ⟨hunmixed, hmap⟩
        exact ⟨⟨opened, rfl⟩, hunmixed, (Except.ok.inj hmap).symm⟩
      · rintro ⟨-, hunmixed, rfl⟩
        exact ⟨hunmixed, rfl⟩

def Permitted (h : Http) (o : Owner) (headers : List (String × String)) : Prop :=
  Unmixed o headers ∧ (∀ field ∈ headers, Proper h field) ∧
    Agreed o.client false (values userAgent (callerFields h headers))

def callerMap (h : Http) (m : Fields) : HeaderMap := extend .empty (callerFields h m.headers)

theorem prepare_ok {b : Option Request} : prepare h o s fields = .ok b ↔
    Ready o s ∧ Permitted h o fields.headers ∧
      b = (addCookies h (jarCookies o s) (shapeRequest o.client fields.method fields.hasBody
        (callerMap h fields) fields.headerOrder)).map (addLength h fields) := by
  simp only [prepare, Client.applyHeaders, bind_ok, rejectIf_ok, exists_const, cookieAccess_ok,
    Bool.not_eq_false']
  constructor
  · rintro ⟨hurl, cookies, ⟨hopened, hunmixed, rfl⟩, hmethod, _, hrequested, hmap⟩
    cases hclosed : o.client.closed with
    | true =>
      rw [hclosed] at hmap
      cases hmap
    | false =>
      cases hloop : o.client.applyLoop h .empty false fields.headers with
      | error e =>
        rw [hclosed, hloop] at hmap
        cases hmap
      | ok m =>
        rw [hclosed, hloop] at hmap
        obtain ⟨hproper, hagreed, rfl⟩ := applyLoop_ok.mp hloop
        exact ⟨⟨hurl, hopened, hmethod, hrequested, hclosed⟩, ⟨hunmixed, hproper, hagreed⟩,
          (Except.ok.inj hmap).symm⟩
  · rintro ⟨hready, ⟨hunmixed, hproper, hagreed⟩, rfl⟩
    refine ⟨hready.url, _, ⟨hready.opened, hunmixed, rfl⟩, hready.method, (), hready.requested, ?_⟩
    have hloop : o.client.applyLoop h .empty false fields.headers = .ok (callerMap h fields) :=
      applyLoop_ok.mpr ⟨hproper, hagreed, rfl⟩
    rw [hready.closed, hloop]
    rfl

/-- What makes the preparation fail. -/
def Blames (h : Http) (o : Owner) (s : Surroundings) (m : Fields) (e : TransportError) : Prop :=
  e = .fromCode .invalidRequest ∧
      (s.url = false ∨ s.method = false ∨ ∃ field ∈ m.headers, ¬Proper h field) ∨
    e = .fromCode .contextConflict ∧ (¬Unmixed o m.headers ∨
      ¬Agreed o.client false (values userAgent (callerFields h m.headers))) ∨
    e = .fromCode .contextNotFound ∧ o.client.closed = true ∨
    o.cookieMode.isSome = true ∧ s.opened = .error e ∨ s.requested = .error e

theorem cookieAccess_blames : FailsWith (Blames h o s fields) (o.cookieAccess s fields) := by
  intro e he
  unfold Owner.cookieAccess at he
  cases hmode : o.cookieMode with
  | none =>
    rw [hmode] at he
    cases he
  | some mode =>
    simp only [hmode] at he
    cases hmixed : (mode == .managed &&
        fields.headers.any fun field => lower field.1 == "cookie") with
    | true =>
      rw [hmixed] at he
      cases he
      refine .inr (.inl ⟨rfl, .inl fun hunmixed => ?_⟩)
      have hfalse := (unmixed_iff mode).mpr fun hmanaged =>
        hunmixed (by simp [Owner.managed, hmode, hmanaged])
      rw [hmixed] at hfalse
      cases hfalse
    | false =>
      rw [hmixed] at he
      cases hopened : s.opened with
      | error e' =>
        rw [hopened] at he
        cases he
        exact .inr (.inr (.inr (.inl ⟨by rw [hmode]; rfl, hopened⟩)))
      | ok opened =>
        rw [hopened] at he
        cases he

theorem applyHeaders_blames : FailsWith (Blames h o s fields)
    (o.client.applyHeaders h fields.method fields.hasBody fields.headers fields.headerOrder) := by
  intro e he
  unfold Client.applyHeaders at he
  cases hclosed : o.client.closed with
  | true =>
    rw [hclosed] at he
    cases he
    exact .inr (.inr (.inl ⟨rfl, hclosed⟩))
  | false =>
    rw [hclosed] at he
    cases hloop : o.client.applyLoop h .empty false fields.headers with
    | ok m =>
      rw [hloop] at he
      cases he
    | error e' =>
      rw [hloop] at he
      cases he
      rcases applyLoop_error hloop with ⟨heq, hproper⟩ | ⟨heq, hagreed⟩
      · exact .inl ⟨heq, .inr (.inr hproper)⟩
      · exact .inr (.inl ⟨heq, .inr hagreed⟩)

theorem prepare_blames : FailsWith (Blames h o s fields) (prepare h o s fields) := by
  unfold prepare
  refine FailsWith.bind ?_ fun _ => cookieAccess_blames.bind fun _ => FailsWith.bind ?_ fun _ =>
    FailsWith.bind ?_ fun _ => ?_
  · exact .rejected fun hurl => .inl ⟨rfl, .inl (by simpa using hurl)⟩
  · exact .rejected fun hmethod => .inl ⟨rfl, .inr (.inl (by simpa using hmethod))⟩
  · exact fun e he => .inr (.inr (.inr (.inr he)))
  · intro e he
    cases happlied : o.client.applyHeaders h fields.method fields.hasBody fields.headers
        fields.headerOrder with
    | ok r =>
      rw [happlied] at he
      cases he
    | error e' =>
      rw [happlied] at he
      cases he
      exact applyHeaders_blames _ happlied

theorem values_nil {name : String} (hother : ∀ field ∈ headers, ∀ name' value,
    parsed h field = some (name', value) → name' ≠ name) :
    values name (callerFields h headers) = [] := by
  rw [values, List.map_eq_nil_iff, List.filter_eq_nil_iff]
  rintro ⟨name', value⟩ hmem heq
  obtain ⟨field, hfield, hparsed⟩ := List.mem_filterMap.mp hmem
  exact hother field hfield name' value hparsed (beq_iff_eq.mp heq)

theorem values_forbidden {name : String} (hproper : ∀ field ∈ headers, Proper h field)
    (hforbidden : forbiddenHeader name = true) : values name (callerFields h headers) = [] := by
  refine values_nil fun field hfield name' value hparsed heq => ?_
  obtain ⟨name'', value', hparsed', hallowed⟩ := hproper field hfield
  rw [hparsed] at hparsed'
  cases hparsed'
  rw [heq, hforbidden] at hallowed
  cases hallowed

theorem values_cookie (hh : h.Documented) (hmanaged : o.managed = true)
    (hunmixed : Unmixed o headers) : values "cookie" (callerFields h headers) = [] := by
  refine values_nil fun field hfield name value hparsed heq => ?_
  obtain ⟨name', hname, hvalue⟩ := Option.bind_eq_some_iff.mp hparsed
  obtain ⟨_, _, hpair⟩ := Option.map_eq_some_iff.mp hvalue
  cases hpair
  exact hunmixed hmanaged field hfield ((hh.lower _ _ hname).symm.trans heq)

theorem length_callerFields (hproper : ∀ field ∈ headers, Proper h field) :
    (callerFields h headers).length = headers.length := by
  induction headers with
  | nil => rfl
  | cons field rest ih =>
    obtain ⟨name, value, hparsed, -⟩ := hproper field List.mem_cons_self
    rw [callerFields_cons hparsed, List.length_cons, List.length_cons,
      ih fun other hother => hproper other (List.mem_cons_of_mem field hother)]

/-- A field of the service stands alone under its name. -/
theorem getAll_header (hh : h.Documented) {base : HeaderMap} {name : String}
    (habsent : base.getAll name = []) (value : HeaderValue) (other : String) :
    (h.header base name value).getAll other =
      if other = name then [value] else base.getAll other := by
  have hkeys : name ∉ base.keys := by
    rw [HeaderMap.mem_keys_iff, habsent]
    exact fun hne => hne rfl
  rw [hh.header base name value hkeys, HeaderMap.getAll_append, habsent, List.nil_append]

structure Sent (h : Http) (o : Owner) (s : Surroundings) (m : Fields) (r : Request) : Prop where
  caller : ∀ name, name ≠ "cookie" → name ≠ "content-length" →
    r.headers.getAll name = values name (callerFields h m.headers)
  complete : (callerFields h m.headers).length = m.headers.length
  cookie : r.headers.getAll "cookie" =
    if o.managed then ((jarCookies o s).bind h.value).toList
    else values "cookie" (callerFields h m.headers)
  length : r.headers.getAll "content-length" =
    if m.hasBody then (m.bodyLength.map digits).toList else []
  framing : ∀ name ∈ r.headers.keys, forbiddenHeader name = true → name = "content-length"
  agent : (r.headers.getAll userAgent).length ≤ 1
  identity : ∀ fixed ∈ o.client.fixedUserAgent,
    (r.headers.get userAgent).or (o.client.defaultHeaders.get userAgent) = some fixed
  order : ∀ names ∈ r.origHeaders, names.Nodup ∧
    ∀ name, name ∈ r.headers.keys ∨ name ∈ o.client.defaultHeaders.keys → name ∈ names
  priority : ∀ priority ∈ r.priority, priority ≤ 255

theorem callerMap_getAll (name : String) :
    (callerMap h fields).getAll name = values name (callerFields h fields.headers) := by
  rw [callerMap, getAll_extend, HeaderMap.getAll_empty, List.nil_append]

/-- The cookies of the jar, and then the length, are new to the fields of the caller. -/
theorem getAll_prepared (hh : h.Documented) {r : Request}
    (hpermitted : Permitted h o fields.headers)
    (hr : (addCookies h (jarCookies o s) (shapeRequest o.client fields.method fields.hasBody
      (callerMap h fields) fields.headerOrder)).map (addLength h fields) = some r) (name : String) :
    r.headers.getAll name =
      if name = "content-length" then
        if fields.hasBody then (fields.bodyLength.map digits).toList else []
      else if name = "cookie" ∧ o.managed = true then ((jarCookies o s).bind h.value).toList
      else values name (callerFields h fields.headers) := by
  obtain ⟨hunmixed, hproper, -⟩ := hpermitted
  obtain ⟨r₁, hr₁, rfl⟩ := Option.map_eq_some_iff.mp hr
  have hcookies : ∀ other, r₁.headers.getAll other =
      if other = "cookie" ∧ o.managed = true then ((jarCookies o s).bind h.value).toList
      else values other (callerFields h fields.headers) := by
    intro other
    cases hjar : jarCookies o s with
    | none =>
      rw [hjar] at hr₁
      cases hr₁
      rw [Option.bind_none, Option.toList_none, shapeRequest, callerMap_getAll]
      split
      next hcookie => rw [hcookie.1, values_cookie hh hcookie.2 hunmixed]
      next => rfl
    | some text =>
      have hmanaged : o.managed = true := by
        unfold jarCookies at hjar
        split at hjar
        · split at hjar
          next hm => exact hm
          next => cases hjar
        · cases hjar
      rw [hjar] at hr₁
      obtain ⟨value, hvalue, rfl⟩ := Option.map_eq_some_iff.mp hr₁
      have habsent : (callerMap h fields).getAll "cookie" = [] :=
        (callerMap_getAll "cookie").trans (values_cookie hh hmanaged hunmixed)
      rw [Option.bind_some, hvalue, Option.toList_some]
      by_cases hother : other = "cookie"
      · rw [if_pos ⟨hother, hmanaged⟩]
        exact (getAll_header hh habsent value other).trans (if_pos hother)
      · rw [if_neg fun hcookie => hother hcookie.1, ← callerMap_getAll other]
        exact (getAll_header hh habsent value other).trans (if_neg hother)
  have habsent : r₁.headers.getAll "content-length" = [] := by
    rw [hcookies, if_neg fun hcookie => absurd hcookie.1 (by decide)]
    exact values_forbidden hproper (by decide)
  unfold addLength
  by_cases hname : name = "content-length"
  · subst hname
    rw [if_pos rfl]
    cases hbody : fields.hasBody with
    | false => exact habsent
    | true =>
      cases hlength : fields.bodyLength with
      | none => exact habsent
      | some length => exact (getAll_header hh habsent _ _).trans (if_pos rfl)
  · rw [if_neg hname, ← hcookies name]
    cases fields.hasBody with
    | false => rfl
    | true =>
      cases fields.bodyLength with
      | none => rfl
      | some length => exact (getAll_header hh habsent _ _).trans (if_neg hname)

theorem addLength_shape (r : Request) : (addLength h fields r).origHeaders = r.origHeaders ∧
    (addLength h fields r).priority = r.priority := by
  unfold addLength
  split <;> exact ⟨rfl, rfl⟩

theorem addCookies_shape {r r' : Request} (hr : addCookies h cookies r = some r') :
    r'.origHeaders = r.origHeaders ∧ r'.priority = r.priority := by
  cases cookies with
  | none =>
    cases hr
    exact ⟨rfl, rfl⟩
  | some text =>
    obtain ⟨value, -, rfl⟩ := Option.map_eq_some_iff.mp hr
    exact ⟨rfl, rfl⟩

theorem sent_of_prepared (hh : h.Documented) {r : Request}
    (hpermitted : Permitted h o fields.headers)
    (hr : (addCookies h (jarCookies o s) (shapeRequest o.client fields.method fields.hasBody
      (callerMap h fields) fields.headerOrder)).map (addLength h fields) = some r) :
    Sent h o s fields r := by
  have hall := getAll_prepared hh hpermitted hr
  obtain ⟨r₁, hr₁, rfl⟩ := Option.map_eq_some_iff.mp hr
  obtain ⟨horder, hpriority⟩ := addCookies_shape hr₁
  obtain ⟨horder', hpriority'⟩ : (addLength h fields r₁).origHeaders = r₁.origHeaders ∧
      (addLength h fields r₁).priority = r₁.priority := addLength_shape r₁
  have hcaller : ∀ name, name ≠ "cookie" → name ≠ "content-length" →
      (addLength h fields r₁).headers.getAll name =
        values name (callerFields h fields.headers) := by
    intro name hcookie hlength
    rw [hall, if_neg hlength, if_neg fun h => hcookie h.1]
  have hagents : (addLength h fields r₁).headers.getAll userAgent =
      values userAgent (callerFields h fields.headers) := hcaller _ (by decide) (by decide)
  obtain ⟨-, hproper, hagreed⟩ := hpermitted
  constructor
  case caller => exact hcaller
  case complete => exact length_callerFields hproper
  case cookie =>
    rw [hall, if_neg (by decide)]
    simp
  case length => rw [hall, if_pos rfl]
  case framing =>
    intro name hname hforbidden
    by_contra hlength
    rw [HeaderMap.mem_keys_iff] at hname
    apply hname
    rw [hcaller name (by rintro rfl; exact absurd hforbidden (by decide)) hlength]
    exact values_forbidden hproper hforbidden
  case agent =>
    rw [hagents]
    exact hagreed.1
  case identity =>
    intro fixed hfixed
    have hdefault := o.client.agent_default fixed hfixed
    rw [HeaderMap.get, HeaderMap.get, hagents, hdefault]
    cases hvalues : values userAgent (callerFields h fields.headers) with
    | nil => rfl
    | cons value rest =>
      rw [hagreed.2 value (by rw [hvalues]; exact List.mem_cons_self) fixed hfixed]
      rfl
  case order =>
    intro names hnames
    rw [horder', horder] at hnames
    obtain ⟨hnodup, hmem, hcookie, hlength⟩ := shaped_order hnames
    refine ⟨hnodup, fun name hname => ?_⟩
    rcases hname with hname | hname
    · rw [HeaderMap.mem_keys_iff, hall] at hname
      by_cases hcontent : name = "content-length"
      · rw [if_pos hcontent] at hname
        cases hbody : fields.hasBody with
        | true => exact hcontent ▸ hlength hbody
        | false =>
          rw [hbody] at hname
          exact absurd rfl hname
      · by_cases hname' : name = "cookie"
        · exact hname' ▸ hcookie
        · rw [if_neg hcontent, if_neg fun h => hname' h.1, ← callerMap_getAll,
            ← HeaderMap.mem_keys_iff] at hname
          exact hmem name (.inl hname)
    · exact hmem name (.inr hname)
  case priority =>
    rw [hpriority', hpriority]
    exact priority_le

/-- A request is prepared exactly when the caller sends proper fields, no cookies beside those of
a jar and one user agent at most, the fixed one. What is sent is then the fields of the caller,
the cookies of the jar and the length of the body; every refusal has its cause. -/
theorem upstream_request (hh : h.Documented) (o : Owner) (s : Surroundings) (fields : Fields) :
    ((∃ b, prepare h o s fields = .ok b) ↔ Ready o s ∧ Permitted h o fields.headers) ∧
    (∀ r, prepare h o s fields = .ok (some r) → Sent h o s fields r) ∧
    (prepare h o s fields = .ok none →
      ∃ text, jarCookies o s = some text ∧ h.value text = none) ∧
    ∀ e, prepare h o s fields = .error e → Blames h o s fields e := by
  refine ⟨?_, ?_, ?_, prepare_blames⟩
  · constructor
    · rintro ⟨b, hb⟩
      obtain ⟨hready, hpermitted, -⟩ := prepare_ok.mp hb
      exact ⟨hready, hpermitted⟩
    · rintro ⟨hready, hpermitted⟩
      exact ⟨_, prepare_ok.mpr ⟨hready, hpermitted, rfl⟩⟩
  · intro r hr
    obtain ⟨-, hpermitted, hsome⟩ := prepare_ok.mp hr
    exact sent_of_prepared hh hpermitted hsome.symm
  · intro hnone
    obtain ⟨-, -, heq⟩ := prepare_ok.mp hnone
    cases hjar : jarCookies o s with
    | none =>
      rw [hjar] at heq
      cases heq
    | some text =>
      rw [hjar] at heq
      refine ⟨text, rfl, ?_⟩
      simpa [addCookies] using heq.symm

def plainHttp : Http where
  name text :=
    if text.toList.all Char.isAlphanum || text == "User-Agent" then some (lower text) else none
  value text :=
    if text.toList.all fun c => ' ' ≤ c && c ≤ '~' then some (AsciiText.bytes text) else none
  header := .append

theorem plainHttp_documented : plainHttp.Documented where
  lower := by
    intro text name hname
    simp only [plainHttp] at hname
    split at hname
    · exact (Option.some.inj hname).symm
    · cases hname
  header _ _ _ _ := rfl

def plainOwner : Owner where
  client := {
    closed := false
    fixedUserAgent := some (AsciiText.bytes "agent")
    profile := .custom true
    defaultHeaders := HeaderMap.empty.insert userAgent (AsciiText.bytes "agent")
    agent_default := by
      rintro value ⟨⟩
      simp }
  cookieMode := some .managed

def plainSurroundings : Surroundings := ⟨true, true, .ok (some "a=1"), .ok ()⟩

def plainFields : Fields where
  method := "POST"
  headers := [("Accept", "a"), ("User-Agent", "agent"), ("Accept", "b"), ("priority", "u=1")]
  hasBody := true
  bodyLength := some 2
  headerOrder := .browser

/-- Both values of `accept`, the cookie of the jar and the length are sent by a client with a
fixed user agent. -/
theorem upstream_request_managed :
    Client.withResolver plainHttp (.custom true) .empty (some "agent") = .ok plainOwner.client ∧
    ∃ r, prepare plainHttp plainOwner plainSurroundings plainFields = .ok (some r) ∧
      Sent plainHttp plainOwner plainSurroundings plainFields r ∧
      r.headers.getAll "accept" = [[97], [98]] ∧ r.headers.getAll "cookie" = [[97, 61, 49]] ∧
      r.headers.getAll "content-length" = [[50]] ∧ r.priority = some 219 := by
  have hprepared : (prepare plainHttp plainOwner plainSurroundings plainFields).toOption.join.any
      (fun r => r.headers.getAll "accept" == [[97], [98]] &&
        r.headers.getAll "cookie" == [[97, 61, 49]] &&
        r.headers.getAll "content-length" == [[50]] &&
        r.priority == some 219) = true := by
    decide +kernel
  obtain ⟨r, hr, hall⟩ := (Option.any_eq_true _ _).mp hprepared
  have hok : prepare plainHttp plainOwner plainSurroundings plainFields = .ok (some r) := by
    cases hprepare : prepare plainHttp plainOwner plainSurroundings plainFields with
    | error e =>
      rw [hprepare] at hr
      cases hr
    | ok b =>
      rw [hprepare] at hr
      cases b with
      | none => cases hr
      | some r' =>
        cases hr
        rfl
  simp only [Bool.and_eq_true, beq_iff_eq] at hall
  obtain ⟨⟨⟨haccept, hcookie⟩, hlength⟩, hpriority⟩ := hall
  have hspec := upstream_request plainHttp_documented plainOwner plainSurroundings plainFields
  exact ⟨rfl, r, hok, hspec.2.1 r hok, haccept, hcookie, hlength, hpriority⟩

end UpstreamRequest
