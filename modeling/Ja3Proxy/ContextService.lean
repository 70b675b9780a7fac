import Ja3Proxy.ContextStore
import Ja3Proxy.CookieRevision

/-! The context operations of `src/contexts.rs` with their replies, each done at one instant.
Times are nanoseconds since the Unix epoch on one clock; the clock of a store never goes
back. A call of `create` brings the outcome of `NetworkClient::new` and the identifier that
it draws, which is one that is not in use. The store is not shut down. -/
namespace ContextService

open AllowedOrigins ContextLifetime CookieModel CookieRevision ExceptRules FiniteMaps ManagedJar
  TransitionRuns TransportErrors WordArithmetic
open ContextStore (Owner notFound contextLimit)

structure BrowserIdentity where
  tlsProfile : String
  emulateHeaders : Bool
  userAgent : Option String
  deriving DecidableEq, Repr

/-- `CreateContext`; its egress is only read by the network client. -/
structure CreateContext where
  partition : String
  identity : BrowserIdentity
  cookieMode : CookieMode
  allowedOrigins : List String
  ttlMs : Option ℕ
  deriving DecidableEq, Repr

structure ContextLimits extends ContextStore.ContextLimits where
  defaultIdleTtlMs : ℕ
  maxIdleTtlMs : ℕ
  maxAgeMs : ℕ
  maxAllowedOrigins : ℕ
  cookies : ManagedJar.Limits
  deriving DecidableEq, Repr

structure Context where
  id : String
  principal : String
  spec : CreateContext
  ages : Ages
  life : Lifetime
  createdMs : ℕ
  jar : Option Jar
  revision : ℕ
  deriving DecidableEq

def Context.owner (c : Context) : Owner := ⟨c.principal, c.spec.partition⟩

structure ContextInfo where
  contextId : String
  partition : String
  expiresAtMs : ℕ
  revision : ℕ
  cookieMode : CookieMode
  identity : BrowserIdentity
  deriving DecidableEq, Repr

def durationMs (duration : ℕ) : ℕ := min (duration / 1000000) wordMax

def Context.info (c : Context) : ContextInfo where
  contextId := c.id
  partition := c.spec.partition
  expiresAtMs := saturatingAdd c.createdMs (durationMs (deadline c.ages c.life))
  revision := c.revision
  cookieMode := c.spec.cookieMode
  identity := c.spec.identity

def Context.expired (c : Context) (now : ℕ) : Bool := c.life.dead c.ages now

abbrev Registry := AList (fun _ : String => Context)

def isControl (c : Char) : Bool := c.val < 0x20 || (0x7f ≤ c.val && c.val ≤ 0x9f)

def validateKey (value : String) : Except TransportError Unit :=
  rejectIf (value.toList.isEmpty || 128 < value.utf8ByteSize || value.toList.any isControl)
    (invalid "Die Kontextzuordnung ist ungültig.")

/-- What the checks leave of a specification: its ages, its origins in normal form and the
partition key of its jar. -/
structure Prepared where
  ages : Ages
  spec : CreateContext
  partitionKey : Option String

def prepare (x : Crates) (l : ContextLimits) (principal : String) (spec : CreateContext) :
    Except TransportError Prepared :=
  (validateKey principal).bind fun _ =>
  (validateKey spec.partition).bind fun _ =>
  let idleMs := spec.ttlMs.getD l.defaultIdleTtlMs
  (rejectIf (idleMs == 0 || l.maxIdleTtlMs < idleMs || l.maxAgeMs == 0)
    (invalid "Die Kontextlaufzeit ist ungültig.")).bind fun _ =>
  (normalizeOrigins x ⟨spec.cookieMode, spec.allowedOrigins, l.maxAllowedOrigins⟩).bind
    fun (origins, partitionKey) =>
  .ok ⟨⟨idleMs * 1000000, l.maxAgeMs * 1000000⟩, { spec with allowedOrigins := origins },
    partitionKey⟩

def cleanup (r : Registry) (now : ℕ) : Registry := retain (fun _ c => !c.expired now) r

def ownedBy (owner : Owner) (c : Context) : ℕ := if c.owner = owner then 1 else 0

def newContext (l : ContextLimits) (principal : String) (p : Prepared) (profile id : String)
    (now : ℕ) : Context where
  id := id
  principal := principal
  spec := { p.spec with identity := { p.spec.identity with tlsProfile := profile } }
  ages := p.ages
  life := ⟨now, now, false⟩
  createdMs := durationMs now
  jar := p.partitionKey.map (Jar.new l.cookies)
  revision := 0

/-- `create` once its checks have passed; `none` when the identifier is in use. -/
def enroll (l : ContextLimits) (r : Registry) (now : ℕ) (principal : String) (p : Prepared)
    (client : Except TransportError String) (id : String) :
    Option (Registry × Except TransportError ContextInfo) :=
  if l.maxContexts ≤ r.entries.length ∨
      l.maxContextsPerPartition ≤ total (ownedBy ⟨principal, p.spec.partition⟩) r then
    some (r, .error contextLimit)
  else
    match client with
    | .error e => some (r, .error e)
    | .ok profile =>
      if (r.lookup id).isSome then none
      else
        some (r.insert id (newContext l principal p profile id now),
          .ok (newContext l principal p profile id now).info)

def create (x : Crates) (l : ContextLimits) (r : Registry) (now : ℕ) (principal : String)
    (spec : CreateContext) (client : Except TransportError String) (id : String) :
    Option (Registry × Except TransportError ContextInfo) :=
  match prepare x l principal spec with
  | .error e => some (r, .error e)
  | .ok p => enroll l (cleanup r now) now principal p client id

def get (r : Registry) (now : ℕ) (owner : Owner) (id : String) :
    Registry × Except TransportError Context :=
  match (r.lookup id).filter fun c => c.owner = owner with
  | none => (r, .error notFound)
  | some c =>
    match c.life.touch c.ages now with
    | none => (r.erase id, .error notFound)
    | some life => (r.insert id { c with life := life }, .ok { c with life := life })

def close (r : Registry) (owner : Owner) (id : String) : Registry :=
  if ((r.lookup id).filter fun c => c.owner = owner).isSome then r.erase id else r

/-- `ManagedGuard::drop` -/
def Context.unlock (c : Context) (now : ℕ) : Context :=
  if c.expired now then { c with jar := c.jar.map Jar.clear } else c

def unmanaged : TransportError :=
  .new .unsupportedCapability "Dieser Kontext verwaltet keine Cookies."

def Context.perform (x : Crates) (now : ℕ) (c : Context) (jar : Jar) (command : Command) :
    Context × Except TransportError CookieReply :=
  match plan x c.spec.allowedOrigins c.revision command with
  | .error e => (c, .error e)
  | .ok (.select u) => (c, .ok ⟨c.revision, some (jar.select x now u), none⟩)
  | .ok .exportSnapshot => (c, .ok ⟨c.revision, none, some (jar.exportSnapshot now)⟩)
  | .ok (.mutate m next) =>
    match m.apply x c.spec.allowedOrigins now jar with
    | .error e => (c, .error e)
    | .ok jar => ({ c with jar := some jar, revision := next }, .ok ⟨next, none, none⟩)

/-- `ContextStore::cookies` behind `get`. -/
def Context.command (x : Crates) (now : ℕ) (c : Context) (command : Command) :
    Context × Except TransportError CookieReply :=
  match c.jar with
  | none => (c, .error unmanaged)
  | some jar =>
    match c.life.touch c.ages now with
    | none => ({ c with jar := some jar.clear }, .error notFound)
    | some life =>
      match { c with life := life }.perform x now jar command with
      | (c, .error e) => (c.unlock now, .error e)
      | (c, .ok reply) =>
        if c.expired now then ({ c with jar := c.jar.map Jar.clear }, .error notFound)
        else (c.unlock now, .ok reply)

def cookies (x : Crates) (r : Registry) (now : ℕ) (owner : Owner) (id : String)
    (command : Command) : Registry × Except TransportError CookieReply :=
  match get r now owner id with
  | (r, .error e) => (r, .error e)
  | (r, .ok c) => (r.insert id (c.command x now command).1, (c.command x now command).2)

inductive Op where
  | create (principal : String) (spec : CreateContext) (client : Except TransportError String)
      (id : String)
  | get (owner : Owner) (id : String)
  | close (owner : Owner) (id : String)
  | cookies (owner : Owner) (id : String) (command : Command)
  | cleanup

def Op.owner : Op → Option Owner
  | .create principal spec _ _ => some ⟨principal, spec.partition⟩
  | .get owner _ => some owner
  | .close owner _ => some owner
  | .cookies owner _ _ => some owner
  | .cleanup => none

inductive Reply where
  | created (result : Except TransportError ContextInfo)
  | found (result : Except TransportError Context)
  | closed
  | cookies (result : Except TransportError CookieReply)
  | swept

def operate (x : Crates) (l : ContextLimits) (r : Registry) (now : ℕ) :
    Op → Option (Registry × Reply)
  | .create principal spec client id =>
    (create x l r now principal spec client id).map fun (r, result) => (r, .created result)
  | .get owner id => some ((get r now owner id).1, .found (get r now owner id).2)
  | .close owner id => some (close r owner id, .closed)
  | .cookies owner id command =>
    some ((cookies x r now owner id command).1, .cookies (cookies x r now owner id command).2)
  | .cleanup => some (cleanup r now, .swept)

structure Event where
  now : ℕ
  op : Op

structure World where
  contexts : Registry
  clock : ℕ
  /-- Every operation so far with its reply. -/
  log : List (Event × Reply)

def World.initial : World := ⟨∅, 0, []⟩

def next (x : Crates) (l : ContextLimits) (w : World) (e : Event) : Option World :=
  if e.now < w.clock then none
  else
    (operate x l w.contexts e.now e.op).map fun (r, reply) => ⟨r, e.now, w.log ++ [(e, reply)]⟩

def machine (x : Crates) (l : ContextLimits) : Machine World Event := ⟨.initial, next x l⟩

end ContextService
