import Ja3Proxy.AdmissionState
import Ja3Proxy.ContextHandlers
import Ja3Proxy.RequestRegistry

/-! `Config::from_env` of `src/config.rs`: the environment and the token file as a pure input.
A limit outside its range is refused and never clamped. The platform has 64-bit words. -/
namespace ServiceConfig

open ContextHandlers (bytes isAsciiGraphic)
open ExceptRules

/-- What `env::var` reports of one variable. -/
inductive Var where
  | notPresent
  | notUnicode
  | value (text : String)
  deriving DecidableEq, Repr

structure Surroundings where
  var : String → Var
  /-- The content of a file, if it can be opened and read. -/
  file : String → Option (List UInt8)

structure Config where
  port : ℕ
  logLevel : String
  token : String
  maxConcurrent : ℕ
  maxConcurrentPerPartition : ℕ
  maxQueued : ℕ
  maxQueuedPerPartition : ℕ
  maxEnvelopes : ℕ
  maxRequestBodySize : ℕ
  maxResponseBodySize : ℕ
  maxTimeoutMs : ℕ
  envelopeTimeoutMs : ℕ
  maxControlBodySize : ℕ
  registryCapacity : ℕ
  registryTtlMs : ℕ
  allowPrivateIps : Bool
  deriving DecidableEq, Repr

def invalidLimit (name : String) : String := "Ungültiger Grenzwert: " ++ name

def parseUsize (text : String) : Option ℕ :=
  let digits := if text.toList.head? = some '+' then text.toList.tail else text.toList
  if digits.isEmpty || !digits.all Char.isDigit then none
  else
    let value := Nat.ofDigitChars 10 digits 0
    if value < 2 ^ 64 then some value else none

def positive (s : Surroundings) (name : String) (default maximum : ℕ) : Except String ℕ :=
  match s.var name with
  | .notPresent => .ok default
  | .value text =>
    match (parseUsize text).filter fun n => Nat.blt 0 n && Nat.ble n maximum with
    | some n => .ok n
    | none => .error (invalidLimit name)
  | .notUnicode => .error (invalidLimit name)

/-- At most one line break at the end is not part of the token. -/
def trimLine (content : List UInt8) : List UInt8 :=
  if [13, 10].isSuffixOf content then content.take (content.length - 2)
  else if [10].isSuffixOf content then content.dropLast
  else content

def unreadableToken : String := "Das separate Dienstgeheimnis konnte nicht gelesen werden."
def oversizedToken : String := "Das separate Dienstgeheimnis ist zu groß."
def invalidToken : String := "Das separate Dienstgeheimnis ist ungültig."
def ambiguousToken : String :=
  "Genau eine der Variablen JA3_PROXY_TOKEN und JA3_PROXY_TOKEN_FILE muss gesetzt sein."
def malformedToken : String :=
  "JA3_PROXY_TOKEN muss 32 bis 4096 druckbare ASCII-Zeichen enthalten."
def reusedToken : String := "JA3_PROXY_TOKEN darf NEXTAUTH_SECRET nicht wiederverwenden."
def inconsistentLimits : String :=
  "Partitions- und Registry-Grenzen sind mit den Gesamtgrenzen unvereinbar."

def tokenFile (content : Option (List UInt8)) : Except String String :=
  match content with
  | none => .error unreadableToken
  | some content =>
    let read := content.take 4099
    if 4098 < read.length then .error oversizedToken
    else
      match String.fromUTF8? (trimLine read).toByteArray with
      | some token => .ok token
      | none => .error invalidToken

def tokenSource (s : Surroundings) : Except String String :=
  match s.var "JA3_PROXY_TOKEN", s.var "JA3_PROXY_TOKEN_FILE" with
  | .value token, .notPresent => .ok token
  | .notPresent, .value path => tokenFile (s.file path)
  | _, _ => .error ambiguousToken

def wellFormedToken (token : String) : Bool :=
  Nat.ble 32 (bytes token).length && Nat.ble (bytes token).length 4096 &&
    (bytes token).all isAsciiGraphic

def readToken (s : Surroundings) : Except String String :=
  (tokenSource s).bind fun token =>
  (rejectIf (!wellFormedToken token) malformedToken).bind fun _ =>
  (rejectIf (s.var "NEXTAUTH_SECRET" = .value token) reusedToken).bind fun _ => .ok token

def readLogLevel (s : Surroundings) : String :=
  match s.var "LOG_LEVEL" with
  | .value text => text
  | _ => "info"

def readPrivateIps (s : Surroundings) : Except String Bool :=
  match s.var "ALLOW_PRIVATE_IPS" with
  | .notPresent => .ok false
  | .value text =>
    if text = "true" ∨ text = "1" then .ok true
    else if text = "false" ∨ text = "0" then .ok false
    else .error (invalidLimit "ALLOW_PRIVATE_IPS")
  | .notUnicode => .error (invalidLimit "ALLOW_PRIVATE_IPS")

def Config.inconsistent (c : Config) : Bool :=
  Nat.blt c.maxConcurrent c.maxConcurrentPerPartition ||
    Nat.blt c.maxQueued c.maxQueuedPerPartition ||
    Nat.blt c.registryCapacity (c.maxConcurrent + c.maxQueued)

def fromEnv (s : Surroundings) : Except String Config := do
  let token ← readToken s
  let port ← positive s "PORT" 8080 65535
  let maxConcurrent ← positive s "MAX_CONCURRENT" 100 10000
  let maxConcurrentPerPartition ← positive s "MAX_CONCURRENT_PER_PARTITION" 4 10000
  let maxQueued ← positive s "MAX_QUEUED" 256 100000
  let maxQueuedPerPartition ← positive s "MAX_QUEUED_PER_PARTITION" 16 100000
  let maxEnvelopes ← positive s "MAX_ENVELOPES" 128 10000
  let maxRequestBodySize ←
    positive s "MAX_REQUEST_BODY_SIZE" (10 * 1024 * 1024) (1024 * 1024 * 1024)
  let maxResponseBodySize ←
    positive s "MAX_RESPONSE_BODY_SIZE" (50 * 1024 * 1024) (1024 * 1024 * 1024)
  let maxTimeoutMs ← positive s "MAX_TIMEOUT_MS" 120000 300000
  let envelopeTimeoutMs ← positive s "ENVELOPE_TIMEOUT_MS" 5000 30000
  let maxControlBodySize ← positive s "MAX_CONTROL_BODY_SIZE" (1024 * 1024) (4 * 1024 * 1024)
  let registryCapacity ← positive s "REGISTRY_CAPACITY" 4096 100000
  let registryTtlMs ← positive s "REGISTRY_TTL_MS" 60000 600000
  let allowPrivateIps ← readPrivateIps s
  let config : Config :=
    { port := port % 65536
      logLevel := readLogLevel s
      token, maxConcurrent, maxConcurrentPerPartition, maxQueued, maxQueuedPerPartition
      maxEnvelopes, maxRequestBodySize, maxResponseBodySize, maxTimeoutMs, envelopeTimeoutMs
      maxControlBodySize, registryCapacity, registryTtlMs, allowPrivateIps }
  rejectIf config.inconsistent inconsistentLimits
  return config

def Config.limits (c : Config) : AdmissionState.Limits :=
  ⟨c.maxConcurrent, c.maxConcurrentPerPartition, c.maxQueued, c.maxQueuedPerPartition⟩

/-- The registry measures in nanoseconds. -/
def Config.registry (c : Config) : RequestRegistry.Config :=
  ⟨c.registryCapacity, c.registryTtlMs * 1000000⟩

def Config.handlers (c : Config) : ContextHandlers.Config :=
  ⟨c.maxTimeoutMs, c.maxResponseBodySize, c.maxRequestBodySize⟩

def Within (maximum n : ℕ) : Prop := 0 < n ∧ n ≤ maximum

structure Config.Valid (c : Config) : Prop where
  port : Within 65535 c.port
  token : wellFormedToken c.token = true
  maxConcurrent : Within 10000 c.maxConcurrent
  maxConcurrentPerPartition : Within 10000 c.maxConcurrentPerPartition
  maxQueued : Within 100000 c.maxQueued
  maxQueuedPerPartition : Within 100000 c.maxQueuedPerPartition
  maxEnvelopes : Within 10000 c.maxEnvelopes
  maxRequestBodySize : Within (1024 * 1024 * 1024) c.maxRequestBodySize
  maxResponseBodySize : Within (1024 * 1024 * 1024) c.maxResponseBodySize
  maxTimeoutMs : Within 300000 c.maxTimeoutMs
  envelopeTimeoutMs : Within 30000 c.envelopeTimeoutMs
  maxControlBodySize : Within (4 * 1024 * 1024) c.maxControlBodySize
  registryCapacity : Within 100000 c.registryCapacity
  registryTtlMs : Within 600000 c.registryTtlMs
  concurrentShare : c.maxConcurrentPerPartition ≤ c.maxConcurrent
  queuedShare : c.maxQueuedPerPartition ≤ c.maxQueued
  /-- The registry holds everything that admission can hold. -/
  capacity : c.maxConcurrent + c.maxQueued ≤ c.registryCapacity

theorem Config.Valid.limits_positive {c : Config} (h : c.Valid) : c.limits.Positive :=
  ⟨h.maxConcurrent.1, h.maxConcurrentPerPartition.1, h.maxQueued.1, h.maxQueuedPerPartition.1⟩

variable {s : Surroundings} {c : Config} {name text token : String} {default maximum n : ℕ}

theorem inconsistent_eq_false : c.inconsistent = false ↔
    c.maxConcurrentPerPartition ≤ c.maxConcurrent ∧ c.maxQueuedPerPartition ≤ c.maxQueued ∧
      c.maxConcurrent + c.maxQueued ≤ c.registryCapacity := by
  have hblt : ∀ a b, Nat.blt a b = false ↔ b ≤ a := by
    intro a b
    rw [← Bool.not_eq_true, Nat.blt_eq, Nat.not_lt]
  simp only [Config.inconsistent, Bool.or_eq_false_iff, hblt, and_assoc]

theorem positive_cases (h : positive s name default maximum = .ok n) :
    s.var name = .notPresent ∧ n = default ∨
      ∃ text, s.var name = .value text ∧ parseUsize text = some n ∧ Within maximum n := by
  unfold positive at h
  split at h
  · cases h
    exact .inl ⟨‹_›, rfl⟩
  · next text htext =>
    split at h
    · next m hm =>
      cases h
      simp only [Option.filter_eq_some_iff, Bool.and_eq_true, Nat.blt_eq, Nat.ble_eq] at hm
      exact .inr ⟨text, htext, hm⟩
    · cases h
  · cases h

theorem positive_within (h : positive s name default maximum = .ok n)
    (hd : Within maximum default) : Within maximum n := by
  obtain ⟨-, rfl⟩ | ⟨_, -, -, hn⟩ := positive_cases h
  · exact hd
  · exact hn

theorem positive_value (hvar : s.var name = .value text) (hparse : parseUsize text = some n)
    (hn : Within maximum n) : positive s name default maximum = .ok n := by
  have hfilter : (parseUsize text).filter (fun n => Nat.blt 0 n && Nat.ble n maximum) = some n := by
    simp only [Option.filter_eq_some_iff, Bool.and_eq_true, Nat.blt_eq, Nat.ble_eq]
    exact ⟨hparse, hn⟩
  simp only [positive, hvar, hfilter]

/-- A successful `do` step. -/
theorem step_ok {α β : Type} {x : Except String α} {f : α → Except String β} {b : β} :
    (x >>= f) = .ok b ↔ ∃ a, x = .ok a ∧ f a = .ok b := bind_ok

theorem readToken_ok : readToken s = .ok token ↔
    tokenSource s = .ok token ∧ wellFormedToken token = true ∧
      s.var "NEXTAUTH_SECRET" ≠ .value token := by
  simp only [readToken, bind_ok, rejectIf_ok]
  constructor
  · rintro ⟨t, ht, -, hw, -, hr, ⟨⟩⟩
    exact ⟨ht, by simpa using hw, by simpa using hr⟩
  · rintro ⟨ht, hw, hr⟩
    exact ⟨token, ht, (), by simpa using hw, (), by simpa using hr, rfl⟩

theorem fromEnv_valid (h : fromEnv s = .ok c) : c.Valid := by
  simp only [fromEnv, step_ok] at h
  obtain ⟨token, htoken, port, hport, concurrent, hconcurrent, share, hshare, queued, hqueued,
    waiting, hwaiting, envelopes, henvelopes, request, hrequest, response, hresponse, timeout,
    htimeout, envelope, henvelope, control, hcontrol, capacity, hcapacity, ttl, httl, ips, -, _,
    hconsistent, hc⟩ := h
  cases hc
  obtain ⟨hfirst, hsecond, hthird⟩ := inconsistent_eq_false.mp (rejectIf_ok.mp hconsistent)
  have hlow : Within 65535 port := positive_within hport ⟨by decide, by decide⟩
  have hport : port % 65536 = port := Nat.mod_eq_of_lt (Nat.lt_succ_of_le hlow.2)
  constructor
  · exact hport.symm ▸ hlow
  · exact (readToken_ok.mp htoken).2.1
  · exact positive_within hconcurrent ⟨by decide, by decide⟩
  · exact positive_within hshare ⟨by decide, by decide⟩
  · exact positive_within hqueued ⟨by decide, by decide⟩
  · exact positive_within hwaiting ⟨by decide, by decide⟩
  · exact positive_within henvelopes ⟨by decide, by decide⟩
  · exact positive_within hrequest ⟨by decide, by decide⟩
  · exact positive_within hresponse ⟨by decide, by decide⟩
  · exact positive_within htimeout ⟨by decide, by decide⟩
  · exact positive_within henvelope ⟨by decide, by decide⟩
  · exact positive_within hcontrol ⟨by decide, by decide⟩
  · exact positive_within hcapacity ⟨by decide, by decide⟩
  · exact positive_within httl ⟨by decide, by decide⟩
  · exact hfirst
  · exact hsecond
  · exact hthird

theorem parseUsize_repr (h : n < 2 ^ 64) : parseUsize n.repr = some n := by
  have hdigits : ∀ c ∈ Nat.toDigits 10 n, c.isDigit = true := fun c hc =>
    Nat.isDigit_of_mem_toDigits (by decide) (by decide) hc
  have hhead : (Nat.toDigits 10 n).head? ≠ some '+' := by
    intro hplus
    have := hdigits '+' (List.mem_of_mem_head? hplus)
    revert this
    decide
  have hempty : (Nat.toDigits 10 n).isEmpty = false := by
    rw [List.isEmpty_eq_false_iff]
    exact Nat.toDigits_ne_nil
  have hall : (Nat.toDigits 10 n).all Char.isDigit = true := List.all_eq_true.mpr hdigits
  simp only [parseUsize, Nat.toList_repr, if_neg hhead, hempty, hall, Bool.not_true, Bool.or_self,
    Bool.false_eq_true, ↓reduceIte, Nat.ofDigitChars_ten_toDigits, if_pos h]

theorem bytes_toByteArray (text : String) : (bytes text).toByteArray = text.toByteArray := by
  rw [← String.utf8Encode_toList]
  rfl

theorem fromUTF8_bytes (text : String) : String.fromUTF8? (bytes text).toByteArray = some text := by
  rw [bytes_toByteArray, String.fromUTF8?, dif_pos text.isValidUTF8]
  rfl

def LineEnd (ending : List UInt8) : Prop := ending = [] ∨ ending = [10] ∨ ending = [13, 10]

theorem trimLine_append {content ending : List UInt8} (h : ∀ b ∈ content, isAsciiGraphic b = true)
    (hending : LineEnd ending) : trimLine (content ++ ending) = content := by
  have hlast : ∀ b, b = 10 ∨ b = 13 → ¬[b] <:+ content := by
    rintro b hb hsuffix
    have hgraphic := h b (hsuffix.subset List.mem_cons_self)
    rcases hb with rfl | rfl <;> revert hgraphic <;> decide
  unfold trimLine
  rcases hending with rfl | rfl | rfl
  · have hpair : ¬[13, 10] <:+ content := fun hsuffix =>
      hlast 10 (.inl rfl) (((List.suffix_cons 13 [10]).trans hsuffix))
    simp [List.isSuffixOf_iff_suffix, hpair, hlast]
  · have hpair : ¬[13, 10] <:+ content ++ [10] := fun hsuffix =>
      hlast 13 (.inr rfl) (List.suffix_append_inj_of_length_eq rfl |>.mp hsuffix).1
    simp [List.isSuffixOf_iff_suffix, hpair]
  · simp [List.isSuffixOf_iff_suffix]

def Config.numbers (c : Config) : List (String × ℕ) :=
  [("PORT", c.port), ("MAX_CONCURRENT", c.maxConcurrent),
    ("MAX_CONCURRENT_PER_PARTITION", c.maxConcurrentPerPartition), ("MAX_QUEUED", c.maxQueued),
    ("MAX_QUEUED_PER_PARTITION", c.maxQueuedPerPartition), ("MAX_ENVELOPES", c.maxEnvelopes),
    ("MAX_REQUEST_BODY_SIZE", c.maxRequestBodySize),
    ("MAX_RESPONSE_BODY_SIZE", c.maxResponseBodySize), ("MAX_TIMEOUT_MS", c.maxTimeoutMs),
    ("ENVELOPE_TIMEOUT_MS", c.envelopeTimeoutMs), ("MAX_CONTROL_BODY_SIZE", c.maxControlBodySize),
    ("REGISTRY_CAPACITY", c.registryCapacity), ("REGISTRY_TTL_MS", c.registryTtlMs)]

def GivesToken (s : Surroundings) (token : String) : Prop :=
  s.var "JA3_PROXY_TOKEN" = .value token ∧ s.var "JA3_PROXY_TOKEN_FILE" = .notPresent ∨
  s.var "JA3_PROXY_TOKEN" = .notPresent ∧ ∃ path ending,
    s.var "JA3_PROXY_TOKEN_FILE" = .value path ∧ LineEnd ending ∧
      s.file path = some (bytes token ++ ending)

def GivesFile (s : Surroundings) (content : Option (List UInt8)) : Prop :=
  s.var "JA3_PROXY_TOKEN" = .notPresent ∧ ∃ path,
    s.var "JA3_PROXY_TOKEN_FILE" = .value path ∧ s.file path = content

structure Prints (s : Surroundings) (c : Config) : Prop where
  token : GivesToken s c.token
  secret : s.var "NEXTAUTH_SECRET" ≠ .value c.token
  logLevel : s.var "LOG_LEVEL" = .value c.logLevel
  numbers : ∀ e ∈ c.numbers, s.var e.1 = .value e.2.repr
  privateIps : s.var "ALLOW_PRIVATE_IPS" = .value (if c.allowPrivateIps then "true" else "false")

theorem tokenSource_given (h : GivesToken s token) (hw : wellFormedToken token = true) :
    tokenSource s = .ok token := by
  simp only [wellFormedToken, Bool.and_eq_true, Nat.ble_eq] at hw
  obtain ⟨⟨-, hlength⟩, hgraphic⟩ := hw
  rcases h with ⟨htoken, hfile⟩ | ⟨htoken, path, ending, hfile, hending, hcontent⟩
  · simp only [tokenSource, htoken, hfile]
  · have hshort : (bytes token ++ ending).length ≤ 4098 := by
      rw [List.length_append]
      rcases hending with rfl | rfl | rfl <;> simp <;> omega
    have htake : (bytes token ++ ending).take 4099 = bytes token ++ ending :=
      List.take_of_length_le (by omega)
    have htrim := trimLine_append (List.all_eq_true.mp hgraphic) hending
    simp only [tokenSource, htoken, hfile, hcontent, tokenFile, htake, htrim, fromUTF8_bytes,
      if_neg (Nat.not_lt.mpr hshort)]

theorem fromEnv_printed (h : Prints s c) (hc : c.Valid) : fromEnv s = .ok c := by
  have htoken : readToken s = .ok c.token :=
    readToken_ok.mpr ⟨tokenSource_given h.token hc.token, hc.token, h.secret⟩
  have hnumber : ∀ {name n maximum} default, (name, n) ∈ c.numbers → Within maximum n →
      maximum ≤ 2 ^ 32 → positive s name default maximum = .ok n := by
    intro name n maximum default hmem hn hmax
    exact positive_value (h.numbers _ hmem) (parseUsize_repr (by have := hn.2; omega)) hn
  have hips : readPrivateIps s = .ok c.allowPrivateIps := by
    cases hallow : c.allowPrivateIps <;> simp [readPrivateIps, h.privateIps, hallow]
  have hlevel : readLogLevel s = c.logLevel := by simp [readLogLevel, h.logLevel]
  have hport : c.port % 65536 = c.port := Nat.mod_eq_of_lt (Nat.lt_succ_of_le hc.port.2)
  have hconsistent : c.inconsistent = false :=
    inconsistent_eq_false.mpr ⟨hc.concurrentShare, hc.queuedShare, hc.capacity⟩
  simp only [fromEnv, step_ok]
  refine ⟨_, htoken, _, hnumber _ (by simp [Config.numbers]) hc.port (by decide), _,
    hnumber _ (by simp [Config.numbers]) hc.maxConcurrent (by decide), _,
    hnumber _ (by simp [Config.numbers]) hc.maxConcurrentPerPartition (by decide), _,
    hnumber _ (by simp [Config.numbers]) hc.maxQueued (by decide), _,
    hnumber _ (by simp [Config.numbers]) hc.maxQueuedPerPartition (by decide), _,
    hnumber _ (by simp [Config.numbers]) hc.maxEnvelopes (by decide), _,
    hnumber _ (by simp [Config.numbers]) hc.maxRequestBodySize (by decide), _,
    hnumber _ (by simp [Config.numbers]) hc.maxResponseBodySize (by decide), _,
    hnumber _ (by simp [Config.numbers]) hc.maxTimeoutMs (by decide), _,
    hnumber _ (by simp [Config.numbers]) hc.envelopeTimeoutMs (by decide), _,
    hnumber _ (by simp [Config.numbers]) hc.maxControlBodySize (by decide), _,
    hnumber _ (by simp [Config.numbers]) hc.registryCapacity (by decide), _,
    hnumber _ (by simp [Config.numbers]) hc.registryTtlMs (by decide), _, hips, (), ?_, ?_⟩
  · rw [rejectIf_ok, hport, hlevel]
    exact hconsistent
  · rw [hport, hlevel]
    rfl

def printed (c : Config) : Surroundings where
  var name :=
    if name = "JA3_PROXY_TOKEN" then .value c.token
    else if name = "LOG_LEVEL" then .value c.logLevel
    else if name = "ALLOW_PRIVATE_IPS" then .value (if c.allowPrivateIps then "true" else "false")
    else
      match c.numbers.lookup name with
      | some n => .value n.repr
      | none => .notPresent
  file _ := none

theorem prints_printed (c : Config) : Prints (printed c) c where
  token := .inl ⟨rfl, rfl⟩
  secret := by
    have hvar : (printed c).var "NEXTAUTH_SECRET" = .notPresent := rfl
    rw [hvar]
    exact Var.noConfusion
  logLevel := rfl
  numbers := by
    intro e he
    simp only [Config.numbers, List.mem_cons, List.not_mem_nil, or_false] at he
    rcases he with rfl | rfl | rfl | rfl | rfl | rfl | rfl | rfl | rfl | rfl | rfl | rfl | rfl <;>
      rfl
  privateIps := rfl

def maxima : List (String × ℕ) :=
  [("PORT", 65535), ("MAX_CONCURRENT", 10000), ("MAX_CONCURRENT_PER_PARTITION", 10000),
    ("MAX_QUEUED", 100000), ("MAX_QUEUED_PER_PARTITION", 100000), ("MAX_ENVELOPES", 10000),
    ("MAX_REQUEST_BODY_SIZE", 1024 * 1024 * 1024), ("MAX_RESPONSE_BODY_SIZE", 1024 * 1024 * 1024),
    ("MAX_TIMEOUT_MS", 300000), ("ENVELOPE_TIMEOUT_MS", 30000),
    ("MAX_CONTROL_BODY_SIZE", 4 * 1024 * 1024), ("REGISTRY_CAPACITY", 100000),
    ("REGISTRY_TTL_MS", 600000)]

def OutOfRange (s : Surroundings) (name : String) (maximum : ℕ) : Prop :=
  s.var name ≠ .notPresent ∧
    ∀ text n, s.var name = .value text → parseUsize text = some n → ¬Within maximum n

inductive Blames (s : Surroundings) : String → Prop where
  | ambiguousToken (h : (s.var "JA3_PROXY_TOKEN" = .notPresent ↔
      s.var "JA3_PROXY_TOKEN_FILE" = .notPresent) ∨
      s.var "JA3_PROXY_TOKEN" = .notUnicode ∨ s.var "JA3_PROXY_TOKEN_FILE" = .notUnicode) :
      Blames s ambiguousToken
  | unreadableToken (h : GivesFile s none) : Blames s unreadableToken
  | oversizedToken (content : List UInt8) (h : GivesFile s (some content))
      (hsize : 4098 < content.length) : Blames s oversizedToken
  | invalidToken (content ending : List UInt8) (hending : LineEnd ending)
      (h : GivesFile s (some (content ++ ending))) (htext : ∀ text, bytes text ≠ content) :
      Blames s invalidToken
  | malformedToken (token : String) (h : GivesToken s token)
      (hform : (bytes token).length < 32 ∨ 4096 < (bytes token).length ∨
        ∃ b ∈ bytes token, isAsciiGraphic b = false) : Blames s malformedToken
  | reusedToken (token : String) (h : GivesToken s token)
      (hsecret : s.var "NEXTAUTH_SECRET" = .value token) : Blames s reusedToken
  | limit (name : String) (maximum : ℕ) (hmem : (name, maximum) ∈ maxima)
      (h : OutOfRange s name maximum) : Blames s (invalidLimit name)
  | privateIps (hset : s.var "ALLOW_PRIVATE_IPS" ≠ .notPresent)
      (h : ∀ text ∈ ["true", "1", "false", "0"], s.var "ALLOW_PRIVATE_IPS" ≠ .value text) :
      Blames s (invalidLimit "ALLOW_PRIVATE_IPS")
  | inconsistent (concurrent share queued waiting capacity : ℕ)
      (hconcurrent : positive s "MAX_CONCURRENT" 100 10000 = .ok concurrent)
      (hshare : positive s "MAX_CONCURRENT_PER_PARTITION" 4 10000 = .ok share)
      (hqueued : positive s "MAX_QUEUED" 256 100000 = .ok queued)
      (hwaiting : positive s "MAX_QUEUED_PER_PARTITION" 16 100000 = .ok waiting)
      (hcapacity : positive s "REGISTRY_CAPACITY" 4096 100000 = .ok capacity)
      (h : concurrent < share ∨ queued < waiting ∨ capacity < concurrent + queued) :
      Blames s inconsistentLimits

def sampleConfig : Config where
  port := 8080
  logLevel := "info"
  token := "test-only-dedicated-service-token-32"
  maxConcurrent := 1
  maxConcurrentPerPartition := 1
  maxQueued := 1
  maxQueuedPerPartition := 1
  maxEnvelopes := 2
  maxRequestBodySize := 1024
  maxResponseBodySize := 1024
  maxTimeoutMs := 5000
  envelopeTimeoutMs := 1000
  maxControlBodySize := 1048576
  registryCapacity := 2
  registryTtlMs := 1000
  allowPrivateIps := false

theorem sampleConfig_valid : sampleConfig.Valid := by
  constructor <;> first | decide | exact ⟨by decide, by decide⟩

end ServiceConfig
