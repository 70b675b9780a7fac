import Mathlib.Data.List.Sort
import Mathlib.Data.Prod.Lex
import Mathlib.Order.OrderDual
import Mathlib.Data.String.Basic
import Mathlib.Order.BooleanAlgebra.Basic
import Ja3Proxy.AsciiText
import Ja3Proxy.CookieModel
import Ja3Proxy.ExceptRules
import Ja3Proxy.SafeIntegers
import Ja3Proxy.TransportErrors
import Ja3Proxy.WordArithmetic

/-! `ManagedJar` of `src/contexts/cookies.rs`: two stores behind one set of limits.
Each operation reads the clock once. The iteration order of a store is the order of its
list; every caller sorts or sums. -/
namespace ManagedJar

open CookieModel ExceptRules TransportErrors WordArithmetic
open AsciiText (HeaderValue isToken toStr)
open SafeIntegers (maxSafe)

structure CookieRecord where
  name : String
  value : String
  domain : String
  path : String
  secure : Bool
  httpOnly : Bool
  hostOnly : Bool
  partitioned : Bool
  sameSite : Option SameSite
  expiresAtMs : Option ℕ
  deriving DecidableEq, Repr

structure CookieSnapshot where
  partitionKey : String
  cookies : List CookieRecord
  deriving DecidableEq, Repr

/-- The limits of `ContextLimits` that concern cookies. -/
structure Limits where
  maxCookies : ℕ
  maxCookieBytes : ℕ
  maxCookieSize : ℕ
  deriving DecidableEq, Repr

structure Stores where
  ordinary : Store
  chips : Store
  deriving DecidableEq

namespace Stores

def empty : Stores := ⟨.empty, .empty⟩

/-- `stores[usize::from(partitioned)]` -/
def get (s : Stores) (partitioned : Bool) : Store := if partitioned then s.chips else s.ordinary

def set (s : Stores) (partitioned : Bool) (store : Store) : Stores :=
  if partitioned then { s with chips := store } else { s with ordinary := store }

/-- `stores.iter().flat_map(|store| store.iter_unexpired())` -/
def unexpired (s : Stores) (now : ℤ) : List Cookie :=
  s.ordinary.unexpired now ++ s.chips.unexpired now

def liveCopy (s : Stores) (now : ℤ) : Stores :=
  ⟨s.ordinary.keep fun c => !c.expired now, s.chips.keep fun c => !c.expired now⟩

end Stores

structure Jar where
  stores : Stores
  partitionKey : String
  limits : Limits
  deriving DecidableEq

def Jar.new (limits : Limits) (partitionKey : String) : Jar := ⟨.empty, partitionKey, limits⟩

def Jar.clear (j : Jar) : Jar := { j with stores := .empty }

def invalid (message : String) : TransportError := .new .invalidRequest message

def limit : TransportError := .new .cookieLimit "Das Cookie-Limit wurde überschritten."

def control (c : Char) : Bool := c.val < 0x20 || c.val == 0x7f

def cookieOctet (c : Char) : Bool :=
  c.val == 0x21 || (0x23 ≤ c.val && c.val ≤ 0x2b) || (0x2d ≤ c.val && c.val ≤ 0x3a) ||
    (0x3c ≤ c.val && c.val ≤ 0x5b) || (0x5d ≤ c.val && c.val ≤ 0x7e)

def validName (name : String) : Bool := isToken name

def unquoted (value : String) : List Char :=
  if startsWith value '"' && endsWith value '"' && 2 ≤ value.toList.length then
    value.toList.tail.dropLast
  else value.toList

def validValue (value : String) : Bool := (unquoted value).all cookieOctet

def validatePair (name value : String) : Except TransportError Unit :=
  (rejectIf (!validName name) (invalid "Der Cookie-Name ist ungültig.")).bind fun _ =>
  rejectIf (!validValue value) (invalid "Der Cookie-Wert ist ungültig.")

def hasPrefix (name pre : String) : Bool :=
  (name.toList.take pre.toList.length).map Char.toLower == pre.toList.map Char.toLower

def hostPrefix (name : String) : Bool := hasPrefix name "__Host-"
def httpPrefix (name : String) : Bool := hasPrefix name "__Http-" || hasPrefix name "__Host-Http-"
def securePrefix (name : String) : Bool :=
  hostPrefix name || httpPrefix name || hasPrefix name "__Secure-"

/-- The domains that a domain cookie must not name: addresses, names with a trailing dot
and public suffixes. -/
def forbiddenDomain (x : Crates) (domain : String) : Bool :=
  isIpAddr domain || startsWith domain '[' || endsWith domain '.' ||
    (x.suffixStr domain).all (· == domain)

def domainsOverlap (left right : CookieDomain) : Bool :=
  left.text == right.text || suffixMatch left.text right.text || suffixMatch right.text left.text

def validatePolicy (x : Crates) (now : ℤ) (cookie : Cookie) (raw : RawCookie) (u : Url)
    (existing : Store) : Except TransportError Unit :=
  (rejectIf (match cookie.domain with
    | .suffix domain => forbiddenDomain x domain
    | .hostOnly _ => false) (invalid "Die Cookie-Domain ist nicht zulässig.")).bind fun _ =>
  (rejectIf ((cookie.secure && u.scheme != .https) ||
      (cookie.sameSite == some .none && !cookie.secure) ||
      (cookie.partitioned && !cookie.secure))
    (invalid "Die Cookie-Sicherheitsattribute sind ungültig.")).bind fun _ =>
  (rejectIf ((securePrefix cookie.name && (!cookie.secure || u.scheme != .https)) ||
      (hostPrefix cookie.name && (raw.domain.isSome || raw.path != some "/")) ||
      (httpPrefix cookie.name && !cookie.httpOnly))
    (invalid "Die Cookie-Präfixregeln wurden verletzt.")).bind fun _ =>
  rejectIf (u.scheme != .https && (existing.unexpired now).any fun old =>
      old.name == cookie.name && old.secure && domainsOverlap old.domain cookie.domain)
    (invalid "Ein sicheres Cookie darf nicht über HTTP überschrieben werden.")

/-- The raw cookie that `canonical_cookie` rebuilds from a parsed one. -/
def rebuild (cookie : Cookie) : RawCookie where
  name := cookie.name
  value := cookie.value
  domainAttr := match cookie.domain with
    | .suffix domain => some domain
    | .hostOnly _ => none
  path := some cookie.path
  secure := cookie.secure
  httpOnly := cookie.httpOnly
  partitioned := cookie.partitioned
  sameSite := cookie.sameSite
  maxAge := none
  expires := cookie.expires

def canonicalCookie (x : Crates) (now : ℤ) (cookie : Cookie) (u : Url) :
    Except TransportError Cookie :=
  match x.tryFromRawCookie now (rebuild cookie) u with
  | some cookie => .ok cookie
  | none => .error (invalid "Das Cookie ist ungültig.")

def toMs (expiry : ℤ) : ℕ := (max expiry 0).toNat / 1000000

def record (cookie : Cookie) : CookieRecord where
  name := cookie.name
  value := cookie.value
  domain := cookie.domain.text
  path := cookie.path
  secure := cookie.secure
  httpOnly := cookie.httpOnly
  hostOnly := match cookie.domain with
    | .hostOnly _ => true
    | .suffix _ => false
  partitioned := cookie.partitioned
  sameSite := cookie.sameSite
  expiresAtMs := cookie.expires.map toMs

def sizeOf (name value domain path : String) : ℕ :=
  saturatingAdd (saturatingAdd (saturatingAdd (saturatingAdd name.utf8ByteSize
    value.utf8ByteSize) domain.utf8ByteSize) path.utf8ByteSize) 96

def recordSize (r : CookieRecord) : ℕ := sizeOf r.name r.value r.domain r.path

def cookieSize (c : Cookie) : ℕ := sizeOf c.name c.value c.domain.text c.path

def insertOrDelete (now : ℤ) (store : Store) (cookie : Cookie) (u : Url) :
    Except TransportError Store :=
  if cookie.expired now then .ok (store.remove cookie.key)
  else if cookie.domain.accepts u then .ok (store.put cookie)
  else .error (invalid "Das Cookie kann nicht gespeichert werden.")

def addSize (bytes size : ℕ) : Except TransportError ℕ :=
  match checkedAdd bytes size with
  | some bytes => .ok bytes
  | none => .error limit

def boundsLoop (l : Limits) : List Cookie → ℕ → ℕ → Except TransportError Unit
  | [], _, _ => .ok ()
  | cookie :: rest, index, bytes =>
    (addSize bytes (cookieSize cookie)).bind fun bytes =>
    (rejectIf (l.maxCookies ≤ index || l.maxCookieSize < cookieSize cookie ||
      l.maxCookieBytes < bytes) limit).bind fun _ =>
    boundsLoop l rest (index + 1) bytes

def checkBounds (l : Limits) (now : ℤ) (s : Stores) : Except TransportError Unit :=
  boundsLoop l (s.unexpired now) 0 0

def firstInstant : ℤ := -377705116800000000000
def lastInstant : ℤ := 253402300799999999999

/-- The closure of `apply` that turns one string into a cookie to be stored. -/
def parseEntry (x : Crates) (now : ℤ) (u : Url) (candidate : Stores) (text : String) :
    Except TransportError Cookie :=
  (rejectIf (text.toList.any control) (invalid "Ein Cookie-Header ist ungültig.")).bind fun _ =>
  match x.parseCookie text with
  | none => .error (invalid "Ein Cookie-Header ist ungültig.")
  | some raw =>
    (validatePair raw.name raw.value).bind fun _ =>
    (rejectIf (raw.maxAge.any fun age => now + age < firstInstant || lastInstant < now + age)
      (invalid "Die Cookie-Laufzeit ist ungültig.")).bind fun _ =>
    match x.tryFromRawCookie now raw u with
    | none => .error (invalid "Die Cookie-Domain ist nicht zulässig.")
    | some parsed =>
      (validatePolicy x now parsed raw u (candidate.get raw.partitioned)).bind fun _ =>
      canonicalCookie x now parsed u

/-- One iteration of `apply` after its limits: lenient ingestion skips invalid cookies. -/
def applyEntry (x : Crates) (now : ℤ) (u : Url) (ignoreInvalid : Bool) (candidate : Stores)
    (text : String) : Except TransportError Stores :=
  match parseEntry x now u candidate text with
  | .error e => if ignoreInvalid && e.code == .invalidRequest then .ok candidate else .error e
  | .ok cookie =>
    (insertOrDelete now (candidate.get cookie.partitioned) cookie u).bind fun store =>
    .ok (candidate.set cookie.partitioned store)

def applyLoop (x : Crates) (l : Limits) (now : ℤ) (u : Url) (ignoreInvalid : Bool) :
    List String → ℕ → ℕ → Stores → Except TransportError Stores
  | [], _, _, candidate => .ok candidate
  | text :: rest, index, bytes, candidate =>
    (addSize bytes text.utf8ByteSize).bind fun bytes =>
    (rejectIf (l.maxCookies ≤ index || l.maxCookieSize < text.utf8ByteSize ||
      l.maxCookieBytes < bytes) limit).bind fun _ =>
    (applyEntry x now u ignoreInvalid candidate text).bind fun candidate =>
    applyLoop x l now u ignoreInvalid rest (index + 1) bytes candidate

def Jar.apply (j : Jar) (x : Crates) (now : ℤ) (u : Url) (cookies : List String)
    (ignoreInvalid : Bool) : Except TransportError Jar :=
  if cookies.isEmpty then .ok j
  else
    (applyLoop x j.limits now u ignoreInvalid cookies 0 0 (j.stores.liveCopy now)).bind
      fun candidate =>
    (checkBounds j.limits now candidate).bind fun _ =>
    .ok { j with stores := candidate }

def Jar.set (j : Jar) (x : Crates) (now : ℤ) (u : Url) (cookies : List String) :
    Except TransportError Jar :=
  j.apply x now u cookies false

def absorbLoop (l : Limits) : List HeaderValue → ℕ → ℕ → Except TransportError (List String)
  | [], _, _ => .ok []
  | header :: rest, index, bytes =>
    (rejectIf (l.maxCookies ≤ index) limit).bind fun _ =>
    (addSize bytes header.length).bind fun bytes =>
    (rejectIf (l.maxCookieBytes < bytes || l.maxCookieSize < header.length) limit).bind fun _ =>
    (absorbLoop l rest (index + 1) bytes).bind fun strings =>
    .ok (match toStr header with
      | some text => text :: strings
      | none => strings)

def Jar.absorb (j : Jar) (x : Crates) (now : ℤ) (u : Url) (headers : List HeaderValue) :
    Except TransportError Jar :=
  (absorbLoop j.limits headers 0 0).bind fun strings => j.apply x now u strings true

abbrev RecordKey := String ×ₗ String ×ₗ String ×ₗ Bool

def CookieRecord.key (r : CookieRecord) : RecordKey :=
  toLex (r.domain, toLex (r.path, toLex (r.name, r.partitioned)))

def Jar.exportSnapshot (j : Jar) (now : ℤ) : CookieSnapshot where
  partitionKey := j.partitionKey
  cookies := ((j.stores.unexpired now).map record).insertionSort fun a b => a.key ≤ b.key

def recordDomain (value : CookieRecord) : CookieDomain :=
  if value.hostOnly then .hostOnly value.domain else .suffix value.domain

/-- The raw cookie that `import` builds from a record. -/
def importRaw (value : CookieRecord) : RawCookie where
  name := value.name
  value := value.value
  domainAttr := if value.hostOnly then none else some value.domain
  path := some value.path
  secure := value.secure
  httpOnly := value.httpOnly
  partitioned := value.partitioned
  sameSite := value.sameSite
  maxAge := none
  expires := value.expiresAtMs.map fun ms : ℕ => (ms : ℤ) * 1000000

def invalidAttributes (value : CookieRecord) : Bool :=
  !startsWith value.path '/' || value.path.toList.any (fun c => control c || c == ';') ||
    value.domain.toList.isEmpty || startsWith value.domain '.' || endsWith value.domain '.'

/-- The first allowed origin that may have set the record. -/
def findSource (origins : List Url) (value : CookieRecord) : Option Url :=
  origins.find? fun u => (recordDomain value).accepts u && (!value.secure || u.scheme == .https)

def parseRecord (x : Crates) (now : ℤ) (origins : List Url) (candidate : Stores)
    (value : CookieRecord) : Except TransportError (Cookie × Url) :=
  match findSource origins value with
  | none => .error (invalid "Die Cookie-Domain liegt außerhalb der erlaubten Ursprünge.")
  | some source =>
    (rejectIf (value.expiresAtMs.any fun ms => maxSafe < ms ||
        lastInstant < (ms : ℤ) * 1000000)
      (invalid "Die Cookie-Laufzeit ist ungültig.")).bind fun _ =>
    match x.tryFromRawCookie now (importRaw value) source with
    | none => .error (invalid "Der Cookie-Snapshot enthält eine ungültige Domain.")
    | some parsed =>
      (validatePolicy x now parsed (importRaw value) source
        (candidate.get value.partitioned)).bind fun _ =>
      (rejectIf (record parsed ≠ value)
        (invalid "Der Cookie-Snapshot ist nicht kanonisch.")).bind fun _ =>
      .ok (parsed, source)

def importLoop (x : Crates) (l : Limits) (now : ℤ) (origins : List Url) :
    List CookieRecord → List RecordKey → ℕ → Stores → Except TransportError Stores
  | [], _, _, candidate => .ok candidate
  | value :: rest, keys, bytes, candidate =>
    (addSize bytes (recordSize value)).bind fun bytes =>
    (rejectIf (l.maxCookieSize < recordSize value || l.maxCookieBytes < bytes) limit).bind fun _ =>
    (validatePair value.name value.value).bind fun _ =>
    (rejectIf (invalidAttributes value)
      (invalid "Der Cookie-Snapshot enthält ungültige Attribute.")).bind fun _ =>
    (rejectIf (keys.contains value.key)
      (invalid "Der Cookie-Snapshot enthält doppelte Cookies.")).bind fun _ =>
    (parseRecord x now origins candidate value).bind fun (parsed, source) =>
    (insertOrDelete now (candidate.get value.partitioned) parsed source).bind fun store =>
    importLoop x l now origins rest (value.key :: keys) bytes
      (candidate.set value.partitioned store)

def parseOrigins (x : Crates) : List String → Except TransportError (List Url)
  | [] => .ok []
  | origin :: rest =>
    match x.parseUrl origin with
    | none => .error (invalid "Der Cookie-Ursprung ist ungültig.")
    | some u => (parseOrigins x rest).bind fun us => .ok (u :: us)

def Jar.importSnapshot (j : Jar) (x : Crates) (now : ℤ) (snapshot : CookieSnapshot)
    (origins : List String) : Except TransportError Jar :=
  (rejectIf (snapshot.partitionKey ≠ j.partitionKey)
    (invalid "Die Cookie-Partition gehört zu einer anderen First-Party-Site.")).bind fun _ =>
  (rejectIf (j.limits.maxCookies < snapshot.cookies.length) limit).bind fun _ =>
  (parseOrigins x origins).bind fun origins =>
  (importLoop x j.limits now origins snapshot.cookies [] 0 .empty).bind fun candidate =>
  (checkBounds j.limits now candidate).bind fun _ =>
  .ok { j with stores := candidate }

/-- The derived order of `CookieDomain`: host-only domains come first. -/
def CookieDomain.rank : CookieDomain → Bool ×ₗ String
  | .hostOnly host => toLex (false, host)
  | .suffix domain => toLex (true, domain)

def sendKey (c : Cookie) : ℕᵒᵈ ×ₗ String ×ₗ (Bool ×ₗ String) ×ₗ Bool :=
  toLex (OrderDual.toDual c.path.utf8ByteSize,
    toLex (c.name, toLex (CookieDomain.rank c.domain, c.partitioned)))

def Jar.sorted (j : Jar) (x : Crates) (now : ℤ) (u : Url) : List Cookie :=
  (j.stores.ordinary.selected x now u ++ j.stores.chips.selected x now u).insertionSort
    fun a b => sendKey a ≤ sendKey b

def Jar.select (j : Jar) (x : Crates) (now : ℤ) (u : Url) : List CookieRecord :=
  (j.sorted x now u).map record

def joinPairs : List Cookie → String
  | [] => ""
  | [c] => c.name ++ "=" ++ c.value
  | c :: rest => c.name ++ "=" ++ c.value ++ "; " ++ joinPairs rest

def Jar.header (j : Jar) (x : Crates) (now : ℤ) (u : Url) : Option String :=
  match j.sorted x now u with
  | [] => none
  | cookies => some (joinPairs cookies)

end ManagedJar
