import Mathlib.Data.Int.Notation
import Mathlib.Data.List.Nodup

/-! URLs, parsed cookies and the keyed cookie store.
The packages behind them (`url`, `cookie`, `cookie_store`, `idna`, `psl`) are not part of
the repository. Their parsers and tables are the fields of `Crates`; the RFC 6265 rules for
domains, paths and storage are definitions. Times are nanoseconds since the Unix epoch. -/
namespace CookieModel

def startsWith (s : String) (c : Char) : Bool := s.toList.head? == some c
def endsWith (s : String) (c : Char) : Bool := s.toList.getLast? == some c

def splitOn (sep : Char) : List Char → List (List Char)
  | [] => [[]]
  | c :: cs =>
    if c = sep then [] :: splitOn sep cs
    else
      match splitOn sep cs with
      | [] => [[c]]
      | part :: parts => (c :: part) :: parts

def decimalOctet (cs : List Char) : Bool :=
  !cs.isEmpty && cs.all Char.isDigit && (cs.length == 1 || cs.head? != some '0') &&
    cs.foldl (fun n c => n * 10 + (c.toNat - '0'.toNat)) 0 ≤ 255

def isIpv4 (cs : List Char) : Bool :=
  (splitOn '.' cs).length == 4 && (splitOn '.' cs).all decimalOctet

def hexGroup (cs : List Char) : Bool :=
  !cs.isEmpty && cs.length ≤ 4 &&
    cs.all fun c => c.isDigit || ('a' ≤ c && c ≤ 'f') || ('A' ≤ c && c ≤ 'F')

def groups (cs : List Char) : Option ℕ :=
  if cs.isEmpty then some 0
  else
    let parts := splitOn ':' cs
    if parts.dropLast.all hexGroup then
      match parts.getLast? with
      | some part => if hexGroup part then some parts.length
          else if isIpv4 part then some (parts.length + 1) else none
      | none => none
    else none

def splitDouble : List Char → Option (List Char × List Char)
  | ':' :: ':' :: cs => some ([], cs)
  | c :: cs => (splitDouble cs).map fun (l, r) => (c :: l, r)
  | [] => none

def isIpv6 (cs : List Char) : Bool :=
  match splitDouble cs with
  | none => groups cs == some 8
  | some (l, r) =>
    ((splitOn ':' l).all fun part => part.isEmpty || hexGroup part) &&
      match groups l, groups r with
      | some a, some b => a + b ≤ 7
      | _, _ => false

def isIpAddr (s : String) : Bool := isIpv4 s.toList || isIpv6 s.toList

inductive Scheme where
  | http | https
  deriving DecidableEq, Repr

def Scheme.text : Scheme → String
  | .http => "http"
  | .https => "https"

inductive Host where
  | domain (name : String)
  | ip (literal : String)
  deriving DecidableEq, Repr

/-- `url.host_str()`; an IPv6 literal keeps its brackets. -/
def Host.text : Host → String
  | .domain name => name
  | .ip literal => literal

def printable (c : Char) : Bool := 0x20 < c.val && c.val < 0x7f

/-- A parsed URL with scheme `http` or `https`: the host is never empty, the path is
rooted, and both are percent- or punycode-encoded to printable ASCII. -/
structure Url where
  scheme : Scheme
  host : Host
  /-- `None` for the default port of the scheme. -/
  port : Option ℕ
  username : String
  password : Option String
  path : String
  query : Option String
  fragment : Option String
  host_ne : host.text ≠ ""
  host_printable : host.text.toList.all printable = true
  path_rooted : startsWith path '/' = true
  path_printable : path.toList.all printable = true
  deriving DecidableEq

/-- `url.origin().ascii_serialization()` -/
def Url.origin (u : Url) : String :=
  u.scheme.text ++ "://" ++ u.host.text ++ (match u.port with
    | some port => ":" ++ toString port
    | none => "")

inductive SameSite where
  | strict | lax | none
  deriving DecidableEq, Repr

/-- `cookie::Cookie`. The flags are only read through `unwrap_or(false)`. -/
structure RawCookie where
  name : String
  value : String
  domainAttr : Option String
  path : Option String
  secure : Bool
  httpOnly : Bool
  partitioned : Bool
  sameSite : Option SameSite
  maxAge : Option ℤ
  expires : Option ℤ
  deriving DecidableEq, Repr

/-- `raw.domain()` leaves out one leading dot. -/
def RawCookie.domain (raw : RawCookie) : Option String :=
  raw.domainAttr.map fun d => if startsWith d '.' then String.ofList d.toList.tail else d

inductive CookieDomain where
  | hostOnly (host : String)
  | suffix (domain : String)
  deriving DecidableEq, Repr

def CookieDomain.text : CookieDomain → String
  | .hostOnly host => host
  | .suffix domain => domain

/-- `cookie_store::Cookie`; no expiry is the end of the session. -/
structure Cookie where
  name : String
  value : String
  domain : CookieDomain
  path : String
  secure : Bool
  httpOnly : Bool
  partitioned : Bool
  sameSite : Option SameSite
  expires : Option ℤ
  deriving DecidableEq, Repr

def Cookie.expired (now : ℤ) (c : Cookie) : Bool := c.expires.any (· ≤ now)

/-- What the packages outside the repository decide. -/
structure Crates where
  /-- `cookie::Cookie::parse` -/
  parseCookie : String → Option RawCookie
  /-- `Url::parse`, restricted to `http` and `https`: every caller rejects other schemes
  as it rejects text that is not a URL. -/
  parseUrl : String → Option Url
  /-- `idna::domain_to_ascii(domain.trim())` -/
  domainToAscii : String → Option String
  /-- `psl::suffix_str` -/
  suffixStr : String → Option String
  /-- `psl::domain_str` -/
  domainStr : String → Option String
  /-- Whether `cookie_store` sends a Secure cookie to this URL. -/
  sendsSecure : Url → Bool

def Crates.IsUrl (x : Crates) (u : Url) : Prop := ∃ text, x.parseUrl text = some u

def suffixMatch (host domain : String) : Bool :=
  domain.toList.isSuffixOf host.toList &&
    (host.toList.take (host.toList.length - domain.toList.length)).getLast? == some '.'

def CookieDomain.accepts (d : CookieDomain) (u : Url) : Bool :=
  match d with
  | .hostOnly host => host == u.host.text
  | .suffix domain => domain == u.host.text ||
      (!isIpAddr u.host.text && suffixMatch u.host.text domain)

def defaultPath (u : Url) : String :=
  let dir := ((u.path.toList.reverse.dropWhile (· ≠ '/')).drop 1).reverse
  if dir.isEmpty then "/" else String.ofList dir

def pathMatch (path : String) (u : Url) : Bool :=
  path == u.path || (path.toList.isPrefixOf u.path.toList &&
    (endsWith path '/' || (u.path.toList.drop path.toList.length).head? == some '/'))

/-- The domain of a received cookie; an empty attribute counts as absent. -/
def Crates.resolveDomain (x : Crates) (raw : RawCookie) (u : Url) : Option CookieDomain :=
  match raw.domain with
  | none => some (.hostOnly u.host.text)
  | some attr =>
    match x.domainToAscii attr with
    | none => none
    | some domain =>
      if domain = "" then some (.hostOnly u.host.text)
      else if (CookieDomain.suffix domain).accepts u then some (.suffix domain)
      else none

def resolvePath (raw : RawCookie) (u : Url) : String :=
  match raw.path with
  | some path => if startsWith path '/' then path else defaultPath u
  | none => defaultPath u

/-- `Max-Age` goes before `Expires`. -/
def resolveExpiry (now : ℤ) (raw : RawCookie) : Option ℤ :=
  match raw.maxAge with
  | some age => some (if age ≤ 0 then 0 else now + age)
  | none => raw.expires

/-- `Cookie::try_from_raw_cookie`. URLs are HTTP URLs here, so `HttpOnly` never objects. -/
def Crates.tryFromRawCookie (x : Crates) (now : ℤ) (raw : RawCookie) (u : Url) :
    Option Cookie :=
  (x.resolveDomain raw u).map fun domain => {
    name := raw.name
    value := raw.value
    domain := domain
    path := resolvePath raw u
    secure := raw.secure
    httpOnly := raw.httpOnly
    partitioned := raw.partitioned
    sameSite := raw.sameSite
    expires := resolveExpiry now raw }

def Crates.sends (x : Crates) (c : Cookie) (u : Url) : Bool :=
  c.domain.accepts u && pathMatch c.path u && (!c.secure || x.sendsSecure u)

abbrev Key := String × String × String

def Cookie.key (c : Cookie) : Key := (c.domain.text, c.path, c.name)

/-- `CookieStore`: at most one cookie for each domain text, path and name. -/
structure Store where
  cookies : List Cookie
  nodup : (cookies.map Cookie.key).Nodup
  deriving DecidableEq

namespace Store

def empty : Store := ⟨[], List.nodup_nil⟩

theorem nodup_filter (s : Store) (p : Cookie → Bool) :
    ((s.cookies.filter p).map Cookie.key).Nodup :=
  s.nodup.sublist (List.filter_sublist.map _)

def keep (s : Store) (p : Cookie → Bool) : Store := ⟨s.cookies.filter p, s.nodup_filter p⟩

def remove (s : Store) (k : Key) : Store := s.keep (·.key ≠ k)

def put (s : Store) (c : Cookie) : Store where
  cookies := s.cookies.filter (·.key ≠ c.key) ++ [c]
  nodup := by
    rw [List.map_append, List.map_singleton, List.nodup_append]
    refine ⟨s.nodup_filter _, by simp, ?_⟩
    intro a ha b hb hab
    obtain ⟨d, hd, rfl⟩ := List.mem_map.mp ha
    rw [List.mem_singleton.mp hb] at hab
    simpa [hab] using (List.mem_filter.mp hd).2

def unexpired (s : Store) (now : ℤ) : List Cookie := s.cookies.filter fun c => !c.expired now

/-- `store.matches(url)` -/
def selected (s : Store) (x : Crates) (now : ℤ) (u : Url) : List Cookie :=
  (s.unexpired now).filter fun c => x.sends c u

@[simp] theorem mem_keep {s : Store} {p : Cookie → Bool} {c : Cookie} :
    c ∈ (s.keep p).cookies ↔ c ∈ s.cookies ∧ p c = true := by
  simp [keep]

theorem mem_put {s : Store} {c d : Cookie} :
    d ∈ (s.put c).cookies ↔ (d ∈ s.cookies ∧ d.key ≠ c.key) ∨ d = c := by
  simp [put]

theorem put_cookies {s : Store} {c : Cookie} (h : ∀ d ∈ s.cookies, d.key ≠ c.key) :
    (s.put c).cookies = s.cookies ++ [c] := by
  have hsame : s.cookies.filter (·.key ≠ c.key) = s.cookies := by
    rw [List.filter_eq_self]
    intro d hd
    exact decide_eq_true (h d hd)
  exact congrArg (· ++ [c]) hsame

theorem mem_unexpired {s : Store} {now : ℤ} {c : Cookie} :
    c ∈ s.unexpired now ↔ c ∈ s.cookies ∧ c.expired now = false := by
  simp [unexpired]

theorem eq_of_key {s : Store} {c d : Cookie} (hc : c ∈ s.cookies) (hd : d ∈ s.cookies)
    (h : c.key = d.key) : c = d :=
  List.inj_on_of_nodup_map s.nodup hc hd h

end Store

end CookieModel
