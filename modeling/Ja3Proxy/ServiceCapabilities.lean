import Ja3Proxy.ProfileRegistry
import Ja3Proxy.ServiceConfig
import Ja3Proxy.SdkUpload

/-! The capabilities that the service announces (`capabilities` of `src/handlers.rs`) and the
checks of the SDK on them (`protocol.ts`, `validateConnection` of `service.ts`). A document that
the generated schema accepts is a typed record; its numbers are checked here. -/
namespace ServiceCapabilities

open ExceptRules SdkErrors ServiceConfig
open SafeIntegers (maxSafe nonnegativeInteger)

structure Framing where
  contentType : String
  maxMetadataBytes : ℕ
  maxDataBytes : ℕ
  maxUploadFrames : ℕ
  deriving DecidableEq, Repr

structure Limits where
  maxRequestBytes : ℕ
  maxResponseBytes : ℕ
  maxTimeoutMs : ℕ
  maxConcurrent : ℕ
  maxConcurrentPerPartition : ℕ
  maxQueued : ℕ
  maxQueuedPerPartition : ℕ
  maxEnvelopes : ℕ
  envelopeTimeoutMs : ℕ
  maxControlBytes : ℕ
  maxHeaderBytes : ℕ
  maxHeaders : ℕ
  maxContexts : ℕ
  maxContextsPerPartition : ℕ
  contextIdleTtlMs : ℕ
  contextMaxIdleTtlMs : ℕ
  contextMaxAgeMs : ℕ
  maxCookies : ℕ
  maxCookieBytes : ℕ
  maxCookieSize : ℕ
  maxAllowedOrigins : ℕ
  registryCapacity : ℕ
  registryTtlMs : ℕ
  deriving DecidableEq, Repr

structure Modes where
  egress : List String
  cookies : List String
  stream : List String
  cancel : List String
  deriving DecidableEq, Repr

structure Capabilities where
  service : String
  build : String
  profiles : List String
  headerDescriptors : List (String × List (String × String))
  profileAliases : List (String × String)
  framing : Framing
  limits : Limits
  modes : Modes
  deriving DecidableEq, Repr

def contentType : String := "application/vnd.ja3proxy"
def buildVersion : String := "2.0.0"
def egressModes : List String :=
  ["direct", "http", "https", "socks4", "socks4a", "socks5", "socks5h"]

/-- `ContextLimits::default` -/
def defaultContextLimits : ContextService.ContextLimits :=
  ⟨⟨1024, 16⟩, 300000, 1800000, 7200000, 32, ⟨180, 65536, 4096⟩⟩

def capabilities (r : ProfileRegistry.Registry) (config : Config) : Capabilities :=
  let limits := defaultContextLimits
  { service := "ja3proxy"
    build := buildVersion
    profiles := ProfileRegistry.availableProfiles r
    headerDescriptors := ProfileRegistry.headerDescriptors r
    profileAliases := ProfileRegistry.profileAliases
    framing := {
      contentType := contentType
      maxMetadataBytes := FrameReader.maxMetadataBytes
      maxDataBytes := FrameReader.maxDataBytes
      maxUploadFrames := FrameReader.maxUploadFrames }
    limits := {
      maxRequestBytes := config.maxRequestBodySize
      maxResponseBytes := config.maxResponseBodySize
      maxTimeoutMs := config.maxTimeoutMs
      maxConcurrent := config.maxConcurrent
      maxConcurrentPerPartition := config.maxConcurrentPerPartition
      maxQueued := config.maxQueued
      maxQueuedPerPartition := config.maxQueuedPerPartition
      maxEnvelopes := config.maxEnvelopes
      envelopeTimeoutMs := config.envelopeTimeoutMs
      maxControlBytes := config.maxControlBodySize
      maxHeaderBytes := 32768
      maxHeaders := 256
      maxContexts := limits.maxContexts
      maxContextsPerPartition := limits.maxContextsPerPartition
      contextIdleTtlMs := limits.defaultIdleTtlMs
      contextMaxIdleTtlMs := limits.maxIdleTtlMs
      contextMaxAgeMs := limits.maxAgeMs
      maxCookies := limits.cookies.maxCookies
      maxCookieBytes := limits.cookies.maxCookieBytes
      maxCookieSize := limits.cookies.maxCookieSize
      maxAllowedOrigins := limits.maxAllowedOrigins
      registryCapacity := config.registryCapacity
      registryTtlMs := config.registryTtlMs }
    modes := {
      egress := egressModes
      cookies := ["external", "managed"]
      stream := ["upload", "download"]
      cancel := ["request", "stream-drop"] } }

def frameLimit : ℕ := 65536

/-- `Object.entries(raw.limits)` -/
def Limits.entries (l : Limits) : List (String × ℕ) :=
  [("maxRequestBytes", l.maxRequestBytes), ("maxResponseBytes", l.maxResponseBytes),
    ("maxTimeoutMs", l.maxTimeoutMs), ("maxConcurrent", l.maxConcurrent),
    ("maxConcurrentPerPartition", l.maxConcurrentPerPartition), ("maxQueued", l.maxQueued),
    ("maxQueuedPerPartition", l.maxQueuedPerPartition), ("maxEnvelopes", l.maxEnvelopes),
    ("envelopeTimeoutMs", l.envelopeTimeoutMs), ("maxControlBytes", l.maxControlBytes),
    ("maxHeaderBytes", l.maxHeaderBytes), ("maxHeaders", l.maxHeaders),
    ("maxContexts", l.maxContexts), ("maxContextsPerPartition", l.maxContextsPerPartition),
    ("contextIdleTtlMs", l.contextIdleTtlMs), ("contextMaxIdleTtlMs", l.contextMaxIdleTtlMs),
    ("contextMaxAgeMs", l.contextMaxAgeMs), ("maxCookies", l.maxCookies),
    ("maxCookieBytes", l.maxCookieBytes), ("maxCookieSize", l.maxCookieSize),
    ("maxAllowedOrigins", l.maxAllowedOrigins), ("registryCapacity", l.registryCapacity),
    ("registryTtlMs", l.registryTtlMs)]

/-- A queue may be closed; every other limit is positive. -/
def acceptedLimit (key : String) (limit : ℕ) : Bool :=
  if key == "maxQueued" || key == "maxQueuedPerPartition" then nonnegativeInteger limit
  else SafeIntegers.positive limit

def Capabilities.supported (raw : Capabilities) : Bool :=
  raw.service == "ja3proxy" && raw.build != "" && !raw.profiles.isEmpty &&
    raw.profiles.all profileName &&
    (raw.headerDescriptors.all fun item => raw.profiles.contains item.1 && headerPairs item.2) &&
    (raw.profileAliases.all fun (name, target) =>
      profileName name && !raw.profiles.contains name && raw.profiles.contains target) &&
    raw.framing.contentType == contentType &&
    SafeIntegers.positive raw.framing.maxMetadataBytes &&
    Nat.ble raw.framing.maxMetadataBytes frameLimit &&
    SafeIntegers.positive raw.framing.maxDataBytes && Nat.ble raw.framing.maxDataBytes frameLimit &&
    SafeIntegers.positive raw.framing.maxUploadFrames &&
    (raw.limits.entries.all fun (key, limit) => acceptedLimit key limit) &&
    raw.modes.stream.contains "upload" && raw.modes.stream.contains "download" &&
    raw.modes.cancel.contains "request" && raw.modes.cancel.contains "stream-drop"

def Capabilities.resolveProfile (caps : Capabilities) (name : String) : Option String :=
  if caps.profiles.contains name then some name else caps.profileAliases.lookup name

variable {s : Surroundings} {config : Config} {r : ProfileRegistry.Registry}

theorem positive_of_within {maximum n : ℕ} (h : Within maximum n) (hmax : maximum ≤ maxSafe) :
    SafeIntegers.positive n = true := by
  have hle := Nat.le_trans h.2 hmax
  exact SafeIntegers.positive_iff.mpr ⟨Int.natCast_pos.mpr h.1, Int.ofNat_le.mpr hle⟩

/-- Every limit of a valid configuration is a number that the SDK takes. -/
theorem entries_positive (h : config.Valid) :
    ∀ entry ∈ (capabilities r config).limits.entries, SafeIntegers.positive entry.2 = true := by
  have hrequest := positive_of_within h.maxRequestBodySize (by decide)
  have hresponse := positive_of_within h.maxResponseBodySize (by decide)
  have htimeout := positive_of_within h.maxTimeoutMs (by decide)
  have hconcurrent := positive_of_within h.maxConcurrent (by decide)
  have hshare := positive_of_within h.maxConcurrentPerPartition (by decide)
  have hqueued := positive_of_within h.maxQueued (by decide)
  have hqueuedShare := positive_of_within h.maxQueuedPerPartition (by decide)
  have henvelopes := positive_of_within h.maxEnvelopes (by decide)
  have henvelope := positive_of_within h.envelopeTimeoutMs (by decide)
  have hcontrol := positive_of_within h.maxControlBodySize (by decide)
  have hcapacity := positive_of_within h.registryCapacity (by decide)
  have httl := positive_of_within h.registryTtlMs (by decide)
  have hfixed : [32768, 256, 1024, 16, 300000, 1800000, 7200000, 180, 65536, 4096, 32].all
      (fun n : ℕ => SafeIntegers.positive n) = true := by decide
  simp only [List.all_cons, List.all_nil, Bool.and_eq_true] at hfixed
  simp only [Limits.entries, capabilities, defaultContextLimits, List.forall_mem_cons]
  simp only [hrequest, hresponse, htimeout, hconcurrent, hshare, hqueued, hqueuedShare, henvelopes,
    henvelope, hcontrol, hcapacity, httl, hfixed, true_and]
  exact fun entry hentry => absurd hentry List.not_mem_nil

theorem acceptedLimit_of_positive {key : String} {limit : ℕ}
    (h : SafeIntegers.positive limit = true) :
    acceptedLimit key limit = true := by
  unfold acceptedLimit
  split
  · have hbounds := SafeIntegers.positive_iff.mp h
    exact SafeIntegers.nonnegativeInteger_iff.mpr ⟨Int.natCast_nonneg _, hbounds.2⟩
  · exact h

theorem framing_accepted :
    (contentType == contentType && SafeIntegers.positive FrameReader.maxMetadataBytes &&
      Nat.ble FrameReader.maxMetadataBytes frameLimit &&
      SafeIntegers.positive FrameReader.maxDataBytes &&
      Nat.ble FrameReader.maxDataBytes frameLimit &&
      SafeIntegers.positive FrameReader.maxUploadFrames) = true := by
  decide

/-- Every alias has a well-formed name of its own and leads to a listed profile. -/
theorem aliases_accepted (hr : r.Pinned) : (ProfileRegistry.profileAliases.all fun (name, target) =>
    profileName name && !(ProfileRegistry.availableProfiles r).contains name &&
      (ProfileRegistry.availableProfiles r).contains target) = true := by
  have hnames : ∀ pair ∈ ProfileRegistry.profileAliases, profileName pair.1 = true := by decide
  rw [List.all_eq_true]
  rintro ⟨name, target⟩ hpair
  obtain ⟨hapart, hlisted⟩ := (ProfileRegistry.profiles r hr).apart _ hpair
  simp only [Bool.and_eq_true, Bool.not_eq_true', List.contains_iff_mem]
  refine ⟨⟨hnames _ hpair, ?_⟩, hlisted⟩
  exact Bool.eq_false_iff.mpr fun hmem => hapart (List.contains_iff_mem.mp hmem)

theorem descriptors_accepted (hr : r.Pinned) :
    ((ProfileRegistry.headerDescriptors r).all fun item =>
      (ProfileRegistry.availableProfiles r).contains item.1 && headerPairs item.2) = true := by
  rw [List.all_eq_true]
  intro item hitem
  obtain ⟨hlisted, hpairs⟩ := ProfileRegistry.headerDescriptors_ok hr item hitem
  rw [Bool.and_eq_true]
  exact ⟨List.contains_iff_mem.mpr hlisted, hpairs⟩

theorem supported_of_valid (h : config.Valid) (hr : r.Pinned) :
    (capabilities r config).supported = true := by
  have hnames : (ProfileRegistry.availableProfiles r).all profileName = true :=
    List.all_eq_true.mpr (ProfileRegistry.available_named hr)
  have hsome : (ProfileRegistry.availableProfiles r).isEmpty = false := by
    simp [ProfileRegistry.availableProfiles, ProfileRegistry.allProfiles,
      ProfileRegistry.customProfiles]
  have hlimits : ((capabilities r config).limits.entries.all fun (key, limit) =>
      acceptedLimit key limit) = true :=
    List.all_eq_true.mpr fun entry hentry =>
      acceptedLimit_of_positive (entries_positive h entry hentry)
  have hframing := framing_accepted
  have hmodes : (["upload", "download"].contains "upload" &&
      ["upload", "download"].contains "download" && ["request", "stream-drop"].contains "request" &&
      ["request", "stream-drop"].contains "stream-drop") = true := by decide
  have hidentity : ("ja3proxy" == "ja3proxy" && buildVersion != "") = true := by decide
  simp only [Bool.and_eq_true] at hframing hmodes hidentity
  simp only [Capabilities.supported, Bool.and_eq_true]
  simp only [capabilities, hnames, hsome, aliases_accepted hr, descriptors_accepted hr, hframing,
    hmodes, hidentity, Bool.not_false, and_self, true_and, and_true]
  exact hlimits

/-- The SDK and the service resolve every name alike. -/
theorem resolves_alike (config : Config) (hr : r.Pinned) (name : String) :
    ProfileRegistry.canonicalProfileName r name =
      match (capabilities r config).resolveProfile name with
      | some concrete => .ok concrete
      | none => .error (.fromCode .invalidProfile) :=
  ProfileRegistry.canonical_resolves hr name

/-- Every service that starts announces capabilities that the SDK takes, and a profile name means
the same to both: the service accepts what the SDK resolves, under the same listed name, which
stands for itself, and refuses every other name. -/
theorem capabilities_agree (hconfig : fromEnv s = .ok config) (hr : r.Pinned) :
    (capabilities r config).supported = true ∧
    (∀ name concrete, ProfileRegistry.canonicalProfileName r name = .ok concrete ↔
      (capabilities r config).resolveProfile name = some concrete) ∧
    (∀ name concrete, ProfileRegistry.canonicalProfileName r name = .ok concrete →
      concrete ∈ (capabilities r config).profiles ∧
      ProfileRegistry.canonicalProfileName r concrete = .ok concrete) ∧
    ∀ name error, ProfileRegistry.canonicalProfileName r name = .error error →
      error = .fromCode .invalidProfile := by
  have hresolves := fun name => resolves_alike config hr name
  refine ⟨supported_of_valid (fromEnv_valid hconfig) hr, ?_, ?_, ?_⟩
  · intro name concrete
    rw [hresolves name]
    cases (capabilities r config).resolveProfile name <;> simp
  · exact fun name concrete h => ProfileRegistry.canonical_listed hr h
  · intro name error h
    rw [hresolves name] at h
    cases hfound : (capabilities r config).resolveProfile name with
    | none =>
      rw [hfound] at h
      exact (Except.error.inj h).symm
    | some concrete =>
      rw [hfound] at h
      cases h

/-- The moving name and a name that only serde reads, with the limits of a small service. -/
theorem capabilities_agree_small :
    (capabilities ProfileRegistry.smallRegistry sampleConfig).supported = true ∧
    (capabilities ProfileRegistry.smallRegistry sampleConfig).resolveProfile "chrome_stable" =
      some "chrome_155" ∧
    ProfileRegistry.canonicalProfileName ProfileRegistry.smallRegistry "chrome_stable" =
      .ok "chrome_155" ∧
    (capabilities ProfileRegistry.smallRegistry sampleConfig).resolveProfile "Chrome149" =
      none := by
  obtain ⟨hsupported, hsame, -, -⟩ := capabilities_agree
    (fromEnv_printed (prints_printed _) sampleConfig_valid) ProfileRegistry.smallRegistry_pinned
  have hresolve : (capabilities ProfileRegistry.smallRegistry sampleConfig).resolveProfile
      "chrome_stable" = some "chrome_155" := by decide
  exact ⟨hsupported, hresolve, (hsame _ _).mpr hresolve, by decide⟩

end ServiceCapabilities
