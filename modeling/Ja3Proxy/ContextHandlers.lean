import Ja3Proxy.OwnerIsolation

/-! The routes of `src/handlers.rs` that lead to a context: creation, deletion, cookie commands
and requests. Bodies are parsed and the request is registered and admitted before.
The creator checks a partition with `validate_key`, deletion and requests with `valid_opaque`. -/
namespace ContextHandlers

open ContextService CookieModel ExceptRules ManagedJar OwnerIsolation TransitionRuns TransportErrors
open ContextStore (Owner)
open CookieRevision (Command)

/-- `auth::PRINCIPAL` -/
def principal : String := "ja3-service"

def bytes (value : String) : List UInt8 := value.toList.flatMap String.utf8EncodeChar

def isAsciiGraphic (b : UInt8) : Bool := 0x21 ≤ b && b ≤ 0x7e

def validOpaque (value : String) : Bool :=
  !(bytes value).isEmpty && Nat.ble (bytes value).length 128 && (bytes value).all isAsciiGraphic

def validateScope (id partition : String) : Except TransportError Unit :=
  rejectIf (!validOpaque id || !validOpaque partition) (.fromCode .invalidRequest)

/-- The limits of `Config` that a request is checked against. -/
structure Config where
  maxTimeoutMs : ℕ
  maxResponseBodySize : ℕ
  maxRequestBodySize : ℕ

/-- The egress of `connection` is only read by the network client. -/
structure RequestMetadata where
  requestId : String
  partition : String
  contextId : Option String
  connection : Option BrowserIdentity
  url : String
  method : String
  headers : List (String × String)
  hasBody : Bool
  bodyLength : Option ℕ
  timeoutMs : ℕ
  maxResponseBytes : ℕ

structure Parsers where
  method : String → Bool
  tlsProfile : String → Bool

/-- A sum that overflows `checked_add` is above the limit as well. -/
def headerBytes (headers : List (String × String)) : ℕ :=
  headers.foldl (fun n h => n + ((bytes h.1).length + (bytes h.2).length)) 0

/-- The first test of `validate_metadata`. -/
def malformed (config : Config) (metadata : RequestMetadata) : Bool :=
  !validOpaque metadata.requestId
    || !validOpaque metadata.partition
    || metadata.contextId.any (fun id => !validOpaque id)
    || metadata.contextId.isSome == metadata.connection.isSome
    || metadata.timeoutMs == 0
    || Nat.blt config.maxTimeoutMs metadata.timeoutMs
    || metadata.maxResponseBytes == 0
    || Nat.blt config.maxResponseBodySize metadata.maxResponseBytes
    || metadata.bodyLength.any (fun length =>
        Nat.blt config.maxRequestBodySize length || (!metadata.hasBody && length != 0))
    || Nat.blt 256 metadata.headers.length
    || Nat.blt 16384 (bytes metadata.url).length
    || Nat.blt 32768 (headerBytes metadata.headers)

def validateMetadata (p : Parsers) (config : Config) (metadata : RequestMetadata) :
    Except TransportError Unit :=
  (rejectIf (malformed config metadata) (.fromCode .invalidRequest)).bind fun _ =>
  (rejectIf (!p.method metadata.method) (.fromCode .invalidRequest)).bind fun _ =>
  (rejectIf (metadata.method == "CONNECT" || metadata.method == "TRACE")
    (.fromCode .unsupportedCapability)).bind fun _ =>
  match metadata.connection with
  | some identity => rejectIf (!p.tlsProfile identity.tlsProfile) (.fromCode .invalidProfile)
  | none => .ok ()

def closeContextHandler (r : Registry) (id partition : String) :
    Registry × Except TransportError Unit :=
  match validateScope id partition with
  | .error e => (r, .error e)
  | .ok () => (ContextService.close r ⟨principal, partition⟩ id, .ok ())

/-- The partition is the one that the command carries; it is not checked here. -/
def cookiesHandler (x : Crates) (r : Registry) (now : ℕ) (id partition : String)
    (command : Command) : Registry × Except TransportError CookieRevision.CookieReply :=
  if validOpaque id then ContextService.cookies x r now ⟨principal, partition⟩ id command
  else (r, .error (.fromCode .invalidRequest))

/-- `request_handler` up to the owner of the connection in `execute`, which is `none` for a
stateless request. -/
def requestHandler (p : Parsers) (config : Config) (r : Registry) (now : ℕ)
    (metadata : RequestMetadata) : Registry × Except TransportError (Option Context) :=
  match validateMetadata p config metadata with
  | .error e => (r, .error e)
  | .ok () =>
    match metadata.contextId with
    | none => (r, .ok none)
    | some id =>
      match ContextService.get r now ⟨principal, metadata.partition⟩ id with
      | (r, .error e) => (r, .error e)
      | (r, .ok c) => (r, .ok (some c))

def Registered (id partition : String) (mode : AllowedOrigins.CookieMode) (r : Registry) : Prop :=
  ∃ c, r.lookup id = some c ∧ c.owner = ⟨principal, partition⟩ ∧ c.id = id ∧
    c.spec.cookieMode = mode

def Undisturbed (id partition : String) (w : World) (e : Event) (_ : World) : Prop :=
  e.op ≠ .close ⟨principal, partition⟩ id ∧
    ∀ c, w.contexts.lookup id = some c → c.expired e.now = false

section Stay

variable {x : Crates} {l : ContextLimits} {r s : Registry} {now : ℕ} {id other partition : String}
  {mode : AllowedOrigins.CookieMode}

theorem Registered.insert_other (h : Registered id partition mode r) {c : Context}
    (hne : id ≠ other) : Registered id partition mode (r.insert other c) := by
  obtain ⟨d, hd, hrest⟩ := h
  exact ⟨d, (AList.lookup_insert_ne hne).trans hd, hrest⟩

theorem Registered.erase_other (h : Registered id partition mode r) (hne : id ≠ other) :
    Registered id partition mode (r.erase other) := by
  obtain ⟨d, hd, hrest⟩ := h
  exact ⟨d, (AList.lookup_erase_ne hne).trans hd, hrest⟩

/-- The context is replaced by one that is known by the same. -/
theorem Registered.insert (h : Registered id partition mode r) {c d : Context}
    (hc : r.lookup other = some c) (hface : face d = face c) :
    Registered id partition mode (r.insert other d) := by
  by_cases heq : id = other
  · subst heq
    obtain ⟨c', hc', howner, hid, hmode⟩ := h
    obtain rfl := Option.some.inj (hc.symm.trans hc')
    simp only [face, Prod.mk.injEq] at hface
    refine ⟨d, AList.lookup_insert r, ?_, hface.1.trans hid, by rw [hface.2.2, hmode]⟩
    rw [Context.owner, hface.2.1, hface.2.2]
    exact howner
  · exact h.insert_other heq

theorem Registered.cleanup (h : Registered id partition mode r)
    (halive : ∀ c, r.lookup id = some c → c.expired now = false) :
    Registered id partition mode (ContextService.cleanup r now) := by
  obtain ⟨c, hc, hrest⟩ := h
  refine ⟨c, FiniteMaps.lookup_retain.mpr ⟨hc, ?_⟩, hrest⟩
  rw [halive c hc]
  rfl

theorem Registered.get (h : Registered id partition mode r) {owner : Owner}
    (halive : ∀ c, r.lookup id = some c → c.expired now = false) :
    Registered id partition mode (ContextService.get r now owner other).1 := by
  cases howned : owned r owner other with
  | none =>
    rw [get_missing howned]
    exact h
  | some c =>
    have hc := (owned_eq_some.mp howned).1
    cases hexpired : c.expired now with
    | true =>
      rw [get_expired howned hexpired]
      apply h.erase_other
      rintro rfl
      simp [halive c hc] at hexpired
    | false =>
      rw [get_alive howned hexpired]
      exact h.insert hc rfl

theorem Registered.cookies (h : Registered id partition mode r) {owner : Owner} {command : Command}
    (halive : ∀ c, r.lookup id = some c → c.expired now = false) :
    Registered id partition mode (ContextService.cookies x r now owner other command).1 := by
  have hget : Registered id partition mode (ContextService.get r now owner other).1 := h.get halive
  unfold ContextService.cookies
  rcases heq : ContextService.get r now owner other with ⟨s, e | c⟩
  · rw [heq] at hget
    exact hget
  · rw [heq] at hget
    exact hget.insert (get_ok heq).1 (command_face x now c command)

theorem Registered.close (h : Registered id partition mode r) {owner : Owner}
    (hne : (⟨owner, other⟩ : Owner × String) ≠ ⟨⟨principal, partition⟩, id⟩) :
    Registered id partition mode (ContextService.close r owner other) := by
  unfold ContextService.close
  split
  · rename_i hsome
    obtain ⟨c, hc⟩ := Option.isSome_iff_exists.mp hsome
    obtain ⟨hlookup, howner⟩ := owned_eq_some.mp hc
    apply h.erase_other
    rintro rfl
    obtain ⟨d, hd, hdowner, _⟩ := h
    obtain rfl := Option.some.inj (hlookup.symm.trans hd)
    exact hne (by rw [← howner, hdowner])
  · exact h

theorem Registered.create (h : Registered id partition mode r) {owner : String}
    {spec : CreateContext} {client : Except TransportError String}
    {result : Except TransportError ContextInfo}
    (halive : ∀ c, r.lookup id = some c → c.expired now = false)
    (hcreate : create x l r now owner spec client other = some (s, result)) :
    Registered id partition mode s := by
  unfold ContextService.create at hcreate
  split at hcreate
  · cases hcreate
    exact h
  · have hswept := h.cleanup halive
    unfold enroll at hcreate
    split at hcreate
    · cases hcreate
      exact hswept
    · split at hcreate
      · cases hcreate
        exact hswept
      · split at hcreate
        · cases hcreate
        · rename_i hfree
          cases hcreate
          apply hswept.insert_other
          rintro rfl
          obtain ⟨c, hc, _⟩ := hswept
          simp [hc] at hfree

theorem registered_operate {op : Op} {reply : Reply} (h : Registered id partition mode r)
    (hclose : op ≠ .close ⟨principal, partition⟩ id)
    (halive : ∀ c, r.lookup id = some c → c.expired now = false)
    (hoperate : operate x l r now op = some (s, reply)) : Registered id partition mode s := by
  cases op with
  | create owner spec client other =>
    simp only [operate, Option.map_eq_some_iff, Prod.mk.injEq] at hoperate
    obtain ⟨⟨s', result⟩, hcreate, rfl, _⟩ := hoperate
    exact h.create halive hcreate
  | get owner other =>
    cases hoperate
    exact h.get halive
  | close owner other =>
    cases hoperate
    apply h.close
    intro heq
    cases heq
    exact hclose rfl
  | cookies owner other command =>
    cases hoperate
    exact h.cookies halive
  | cleanup =>
    cases hoperate
    exact h.cleanup halive

theorem registered_run {es : List Event} {w v : World}
    (h : Registered id partition mode w.contexts)
    (hundisturbed : (machine x l).Along (Undisturbed id partition) w es)
    (hrun : (machine x l).run w es = some v) : Registered id partition mode v.contexts := by
  have hstep : ∀ u e u', Registered id partition mode u.contexts → Undisturbed id partition u e u' →
      (machine x l).next u e = some u' → Registered id partition mode u'.contexts := by
    intro u e u' hu hnot hnext
    obtain ⟨_, r, reply, hoperate, rfl⟩ := next_eq_some.mp hnext
    exact registered_operate hu hnot.1 hnot.2 hoperate
  exact Machine.run_preserves_along hstep h hundisturbed hrun

end Stay

def UuidText (id : String) : Prop :=
  id.toList.length = 36 ∧ ∀ c ∈ id.toList, c ∈ "0123456789abcdef-".toList

theorem uuid_char {c : Char} (h : c ∈ "0123456789abcdef-".toList) :
    ∃ b, String.utf8EncodeChar c = [b] ∧ isAsciiGraphic b = true := by
  have hall : "0123456789abcdef-".toList.all (fun c =>
      (String.utf8EncodeChar c).length == 1 && (String.utf8EncodeChar c).all isAsciiGraphic) := by
    decide +kernel
  have hc := List.all_eq_true.mp hall c h
  rw [Bool.and_eq_true, beq_iff_eq] at hc
  obtain ⟨hone, hgraphic⟩ := hc
  obtain ⟨b, hb⟩ := List.length_eq_one_iff.mp hone
  exact ⟨b, hb, by simpa [hb] using hgraphic⟩

theorem ascii_bytes {text : List Char} (h : ∀ c ∈ text, c ∈ "0123456789abcdef-".toList) :
    (text.flatMap String.utf8EncodeChar).length = text.length ∧
      (text.flatMap String.utf8EncodeChar).all isAsciiGraphic = true := by
  induction text with
  | nil => exact ⟨rfl, rfl⟩
  | cons c text ih =>
    obtain ⟨b, hb, hgraphic⟩ := uuid_char (h c List.mem_cons_self)
    obtain ⟨hlength, hall⟩ := ih fun d hd => h d (List.mem_cons_of_mem c hd)
    rw [List.flatMap_cons, hb]
    exact ⟨by simp [hlength], by simp only [List.singleton_append, List.all_cons, hgraphic, hall,
      Bool.and_self]⟩

theorem validOpaque_uuid {id : String} (h : UuidText id) : validOpaque id = true := by
  obtain ⟨hlength, hall⟩ := ascii_bytes h.2
  rw [h.1] at hlength
  have hne : (bytes id).isEmpty = false := by
    rw [List.isEmpty_eq_false_iff_exists_mem]
    exact List.exists_mem_of_length_pos (by rw [bytes, hlength]; decide)
  have hble : Nat.ble (bytes id).length 128 = true := by
    rw [bytes, hlength]
    rfl
  rw [validOpaque, hne, hble, bytes, hall]
  rfl

theorem validateScope_ok {id partition : String} :
    validateScope id partition = .ok () ↔ validOpaque id = true ∧ validOpaque partition = true := by
  rw [validateScope, rejectIf_ok]
  simp

def OtherwiseValid (p : Parsers) (config : Config) (metadata : RequestMetadata) : Prop :=
  ∃ partition id,
    validateMetadata p config { metadata with partition := partition, contextId := some id } =
      .ok ()

theorem malformed_scope {config : Config} {metadata : RequestMetadata} {partition id id' : String}
    (hcontext : metadata.contextId = some id) (hid : validOpaque id = true)
    (hpartition : validOpaque metadata.partition = true)
    (h : malformed config { metadata with partition := partition, contextId := some id' } = false) :
    malformed config metadata = false := by
  simp only [malformed, Bool.or_eq_false_iff, Option.any_some, Option.isSome_some] at h ⊢
  obtain ⟨⟨⟨⟨⟨⟨⟨⟨⟨⟨⟨hrequest, _⟩, _⟩, hconnection⟩, hzero⟩, htimeout⟩, hnone⟩, hresponse⟩, hbody⟩,
    hheaders⟩, hurl⟩, hsize⟩ := h
  simp only [hcontext, Option.any_some, Option.isSome_some, hid, hpartition]
  exact ⟨⟨⟨⟨⟨⟨⟨⟨⟨⟨⟨hrequest, rfl⟩, rfl⟩, hconnection⟩, hzero⟩, htimeout⟩, hnone⟩, hresponse⟩,
    hbody⟩,
    hheaders⟩, hurl⟩, hsize⟩

theorem validateMetadata_scope {p : Parsers} {config : Config} {metadata : RequestMetadata}
    {id : String} (hcontext : metadata.contextId = some id) (hid : validOpaque id = true)
    (hpartition : validOpaque metadata.partition = true)
    (h : OtherwiseValid p config metadata) : validateMetadata p config metadata = .ok () := by
  obtain ⟨partition, id', h⟩ := h
  simp only [validateMetadata, bind_ok, rejectIf_ok] at h ⊢
  obtain ⟨_, hmalformed, hrest⟩ := h
  exact ⟨(), malformed_scope hcontext hid hpartition hmalformed, hrest⟩

structure Usable (p : Parsers) (config : Config) (x : Crates) (r : Registry) (now : ℕ)
    (info : ContextInfo) : Prop where
  close : ∃ s, closeContextHandler r info.contextId info.partition = (s, .ok ()) ∧
    s.lookup info.contextId = none
  cookies : info.cookieMode = .managed → ∀ command,
    cookiesHandler x r now info.contextId info.partition command =
      ContextService.cookies x r now ⟨principal, info.partition⟩ info.contextId command
  request : ∀ metadata : RequestMetadata, metadata.partition = info.partition →
    metadata.contextId = some info.contextId → OtherwiseValid p config metadata →
    ∃ s c, requestHandler p config r now metadata = (s, .ok (some c)) ∧
      c.id = info.contextId ∧ c.owner = ⟨principal, info.partition⟩

theorem created_registered {x : Crates} {l : ContextLimits} {r s : Registry} {now : ℕ}
    {spec : CreateContext} {client : Except TransportError String} {id : String}
    {info : ContextInfo} (h : create x l r now principal spec client id = some (s, .ok info)) :
    info.contextId = id ∧ info.partition = spec.partition ∧
      Registered id spec.partition info.cookieMode s := by
  unfold ContextService.create at h
  split at h
  · cases h
  · rename_i prepared hprepare
    unfold enroll at h
    split at h
    · cases h
    · split at h
      · cases h
      · split at h
        · cases h
        · cases h
          have hpartition := prepare_partition hprepare
          refine ⟨rfl, hpartition, _, AList.lookup_insert _, ?_, rfl, rfl⟩
          rw [← hpartition]
          rfl

theorem requestHandler_get {p : Parsers} {config : Config} {r s : Registry} {now : ℕ}
    {metadata : RequestMetadata} {id : String} {c : Context}
    (hvalid : validateMetadata p config metadata = .ok ()) (hcontext : metadata.contextId = some id)
    (hget : ContextService.get r now ⟨principal, metadata.partition⟩ id = (s, .ok c)) :
    requestHandler p config r now metadata = (s, .ok (some c)) := by
  unfold requestHandler
  rw [hvalid]
  dsimp only
  rw [hcontext]
  dsimp only
  rw [hget]

theorem usable_iff {p : Parsers} {config : Config} {x : Crates} {r : Registry} {now : ℕ}
    {info : ContextInfo} (hid : validOpaque info.contextId = true)
    (hregistered : Registered info.contextId info.partition info.cookieMode r)
    (halive : ∀ c, r.lookup info.contextId = some c → c.expired now = false) :
    Usable p config x r now info ↔ validOpaque info.partition = true := by
  obtain ⟨c, hc, howner, hcid, _⟩ := hregistered
  have howned : owned r ⟨principal, info.partition⟩ info.contextId = some c :=
    owned_eq_some.mpr ⟨hc, howner⟩
  constructor
  · intro h
    obtain ⟨s, hclose, _⟩ := h.close
    unfold closeContextHandler at hclose
    split at hclose
    · cases hclose
    · rename_i hscope
      exact (validateScope_ok.mp hscope).2
  · intro hpartition
    refine ⟨?_, ?_, ?_⟩
    · refine ⟨r.erase info.contextId, ?_, AList.lookup_erase info.contextId r⟩
      rw [owned] at howned
      simp [closeContextHandler, validateScope_ok.mpr ⟨hid, hpartition⟩, ContextService.close,
        howned]
    · intro _ command
      rw [cookiesHandler, if_pos hid]
    · intro metadata hsame hcontext hvalid
      have hok := validateMetadata_scope hcontext hid (hsame ▸ hpartition) hvalid
      rw [← hsame] at howned
      have hget := get_alive howned (halive c hc)
      exact ⟨_, _, requestHandler_get hok hcontext hget, hcid, howner⟩

theorem created_usable_iff {x : Crates} {l : ContextLimits} (p : Parsers) (config : Config)
    {fs : List Event} {w v u : World} {now later : ℕ} {spec : CreateContext}
    {client : Except TransportError String} {id : String} {info : ContextInfo}
    (hv : (machine x l).next w ⟨now, .create principal spec client id⟩ = some v)
    (hinfo : v.log = w.log ++ [(⟨now, .create principal spec client id⟩, .created (.ok info))])
    (huuid : UuidText id) (hu : (machine x l).run v fs = some u)
    (hundisturbed : (machine x l).Along (Undisturbed id spec.partition) v fs)
    (halive : ∀ c, u.contexts.lookup id = some c → c.expired later = false) :
    Usable p config x u.contexts later info ↔ validOpaque spec.partition = true := by
  obtain ⟨_, r, reply, hoperate, rfl⟩ := next_eq_some.mp hv
  simp only [operate, Option.map_eq_some_iff, Prod.mk.injEq] at hoperate
  obtain ⟨⟨s, result⟩, hcreate, rfl, rfl⟩ := hoperate
  have hresult : result = .ok info := by simpa using hinfo
  subst hresult
  obtain ⟨hid, hpartition, hregistered⟩ := created_registered hcreate
  have hkept := registered_run hregistered hundisturbed hu
  rw [← hid, ← hpartition] at hkept
  rw [← hpartition]
  exact usable_iff (hid ▸ validOpaque_uuid huuid) hkept (hid ▸ halive)

def sampleParsers : Parsers where
  method name := !name.toList.isEmpty &&
    name.toList.all fun c => c.isAlphanum || c ∈ "!#$%&*+-.^_|~".toList || c.val == 0x27 ||
      c.val == 0x60
  tlsProfile name := name == "chrome_120"

def sampleConfig : Config := ⟨5000, 1024, 1024⟩

def sampleUuid : String := "00000000-0000-4000-8000-000000000000"

def sampleCreate (partition : String) : Event :=
  ⟨0, .create principal (sampleSpec partition) (.ok "chrome_120") sampleUuid⟩

def laterUse : List Event :=
  [⟨1, .get ⟨principal, "p"⟩ sampleUuid⟩, ⟨2, .cookies ⟨principal, "p"⟩ sampleUuid .exportSnapshot⟩]

/-- A request and a cookie command later, the context can still be used. -/
theorem created_usable_iff_later :
    ∃ v u info, (machine JarPolicy.sampleCrates sampleLimits).next .initial (sampleCreate "p") =
        some v ∧
      (machine JarPolicy.sampleCrates sampleLimits).run v laterUse = some u ∧
      v.log = [(sampleCreate "p", .created (.ok info))] ∧
      Usable sampleParsers sampleConfig JarPolicy.sampleCrates u.contexts 3 info := by
  obtain ⟨v, hv⟩ : ∃ v, (machine JarPolicy.sampleCrates sampleLimits).next .initial
      (sampleCreate "p") = some v := ⟨_, rfl⟩
  obtain ⟨info, hinfo⟩ : ∃ info, v.log = [(sampleCreate "p", .created (.ok info))] := by
    cases hv
    exact ⟨_, rfl⟩
  obtain ⟨u, hu⟩ : ∃ u, (machine JarPolicy.sampleCrates sampleLimits).run v laterUse = some u := by
    cases hv
    exact ⟨_, rfl⟩
  have hdigits : sampleUuid.toList.all (fun c => "0123456789abcdef-".toList.contains c) := by
    decide +kernel
  have huuid : UuidText sampleUuid := ⟨by decide +kernel, by simpa using hdigits⟩
  have hundisturbed : (machine JarPolicy.sampleCrates sampleLimits).Along
      (Undisturbed sampleUuid "p") v laterUse := by
    cases hv
    intro t ht
    cases ht
    refine ⟨⟨by simp, fun c hc => ?_⟩, ?_⟩
    · cases hc
      rfl
    · intro t ht
      cases ht
      refine ⟨⟨by simp, fun c hc => ?_⟩, trivial⟩
      cases hc
      rfl
  have halive : ∀ c, u.contexts.lookup sampleUuid = some c → c.expired 3 = false := by
    cases hv
    cases hu
    intro c hc
    cases hc
    rfl
  refine ⟨v, u, info, hv, hu, hinfo, ?_⟩
  exact (created_usable_iff sampleParsers sampleConfig hv hinfo huuid hu hundisturbed halive).mpr
    (by decide +kernel)

/-- A partition with a space: the context is there, and its owner cannot close it. -/
theorem spaced_partition_not_closable :
    ∃ v info, (machine JarPolicy.sampleCrates sampleLimits).next .initial (sampleCreate "a b") =
        some v ∧
      v.log = [(sampleCreate "a b", .created (.ok info))] ∧
      (v.contexts.lookup info.contextId).any (fun c => !c.expired 1) = true ∧
      closeContextHandler v.contexts info.contextId info.partition =
        (v.contexts, .error (.fromCode .invalidRequest)) ∧
      ∀ p config, ¬ Usable p config JarPolicy.sampleCrates v.contexts 1 info := by
  obtain ⟨v, hv⟩ : ∃ v, (machine JarPolicy.sampleCrates sampleLimits).next .initial
      (sampleCreate "a b") = some v := ⟨_, rfl⟩
  obtain ⟨info, hinfo, hpartition, halive⟩ : ∃ info,
      v.log = [(sampleCreate "a b", .created (.ok info))] ∧ info.partition = "a b" ∧
      (v.contexts.lookup info.contextId).any (fun c => !c.expired 1) = true := by
    cases hv
    exact ⟨_, rfl, rfl, rfl⟩
  have hscope : validateScope info.contextId info.partition =
      .error (.fromCode .invalidRequest) := by
    have hinvalid : validOpaque "a b" = false := by decide +kernel
    rw [validateScope, hpartition, hinvalid]
    simp [rejectIf]
  have hclose : closeContextHandler v.contexts info.contextId info.partition =
      (v.contexts, .error (.fromCode .invalidRequest)) := by
    rw [closeContextHandler, hscope]
  refine ⟨v, info, hv, hinfo, halive, hclose, ?_⟩
  intro p config h
  obtain ⟨s, hs, _⟩ := h.close
  rw [hclose] at hs
  cases hs

end ContextHandlers
