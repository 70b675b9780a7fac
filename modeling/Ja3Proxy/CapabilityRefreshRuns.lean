import Ja3Proxy.CapabilityRefresh

/-! When the refresh of `Service.capabilities` keeps the document that a service was accepted
with. -/
namespace CapabilityRefresh

open TransitionRuns ListTotals

variable {κ δ : Type*} {c : Config κ δ} {raw : κ} {s t : Service κ δ} {l : ℕ}

def Load.Sound (c : Config κ δ) (raw : κ) : Load κ δ → Prop
  | .reading size chunks => size = chunks.flatten.length ∧ chunks.flatten <+: c.document
  | .received found => found = raw
  | .accepted value => value = c.copyCapabilities raw
  | .rejected failure => failure = .timeout
  | _ => True

def Caller.Sound (c : Config κ δ) (raw : κ) : Caller δ → Prop
  | .returned value => value = c.copyCapabilities raw
  | .failed failure => failure = .timeout
  | _ => True

structure Invariant (c : Config κ δ) (raw : κ) (s : Service κ δ) : Prop where
  limit : c.document.length ≤ s.controlLimit
  loads : ∀ (l : ℕ) (load : Load κ δ), s.loads[l]? = some load → load.Sound c raw
  callers : ∀ (k : ℕ) (caller : Caller δ), s.callers[k]? = some caller → caller.Sound c raw
  cached : ∀ (expires : ℕ) (value : δ), s.cached = some (expires, value) →
    value = c.copyCapabilities raw

theorem Invariant.join (h : Invariant c raw s) (caller : Caller δ)
    (hcaller : caller.Sound c raw) : Invariant c raw (s.join caller) where
  limit := h.limit
  loads := h.loads
  callers := by
    intro m other hm
    rcases getElem?_append_cases hm with hm | ⟨-, rfl⟩
    · exact h.callers m other hm
    · exact hcaller
  cached := h.cached

/-- A chunk of the document is taken when the whole document fits the limit. -/
theorem receive_eq {limit size : ℕ} {chunks : List (List UInt8)} {bytes : List UInt8}
    (hlimit : c.document.length ≤ limit) (hsize : size = chunks.flatten.length)
    (hbytes : chunks.flatten ++ bytes <+: c.document) :
    Load.receive c limit size chunks bytes =
      some (.reading (size + bytes.length) (chunks ++ [bytes])) := by
  have hfits : ¬ size + bytes.length > limit := by
    have hle := hbytes.length_le
    rw [List.length_append] at hle
    omega
  rw [Load.receive, if_pos (List.isPrefixOf_iff_prefix.mpr hbytes), if_neg hfits]

theorem finish_eq (h : Accepts c raw) {chunks : List (List UInt8)}
    (hchunks : chunks.flatten = c.document) : Load.finish c chunks = some (.received raw) := by
  rw [Load.finish, hchunks, if_pos (by simp)]
  simp only [h.parsed]

theorem LoadStep.sound {limit : ℕ} {load next : Load κ δ} (h : LoadStep c limit load next)
    (ha : Accepts c raw) (hlimit : c.document.length ≤ limit) (hload : load.Sound c raw) :
    next.Sound c raw := by
  cases h with
  | enroll => trivial
  | answer => exact ⟨rfl, List.nil_prefix⟩
  | taken hbytes hsize =>
    obtain ⟨rfl, -⟩ := hload
    refine ⟨by simp, ?_⟩
    simpa using hbytes
  | refused hbytes hsize =>
    obtain ⟨rfl, -⟩ := hload
    have hle := hbytes.length_le
    rw [List.length_append] at hle
    omega
  | parsed hchunks hraw => exact Option.some.inj (hraw.symm.trans ha.parsed)
  | unparsed hraw => cases hraw.symm.trans ha.parsed
  | accepted hvalid => exact congrArg c.copyCapabilities hload
  | unsupported hvalid =>
    rw [show _ = raw from hload, ha.valid] at hvalid
    cases hvalid
  | expired => rfl

theorem Invariant.act {load : Load κ δ} {a : Act} (h : Invariant c raw s)
    (ha : Accepts c raw) (hfits : c.document.length ≤ c.maxControlBytes raw)
    (hload : s.loads[l]? = some load) (hact : s.act c l load a = some t) :
    Invariant c raw t := by
  obtain ⟨next, hacted⟩ := act_acted hact
  have hsound := h.loads l load hload
  constructor
  case limit =>
    rcases hacted.memo with ⟨hlimit, -⟩ | ⟨found, hfound, -, hlimit, -⟩
    · rw [hlimit]
      exact h.limit
    · subst hfound
      have hsmall := ha.small
      rw [hlimit, show found = raw from hsound]
      omega
  case loads =>
    intro m other hm
    rw [hacted.loads] at hm
    rcases getElem?_set_cases hm with ⟨-, rfl⟩ | ⟨-, hm⟩
    · exact hacted.step.sound ha h.limit hsound
    · exact h.loads m other hm
  case callers =>
    rw [hacted.callers]
    exact h.callers
  case cached =>
    rcases hacted.memo with ⟨-, hcached⟩ | ⟨found, hfound, -, -, hcached⟩
    · rw [hcached]
      exact h.cached
    · subst hfound
      rw [hcached, show found = raw from hsound]
      rintro expires value ⟨⟩
      rfl

theorem Invariant.call {aborted : Bool} (h : Invariant c raw s) (hcalled : Called s aborted t)
    (hroom : Roomy s (.call aborted) t) : Invariant c raw t := by
  cases hcalled with
  | joined hcaller =>
    rcases hcaller with rfl | ⟨l, rfl⟩ | ⟨expires, value, hcached, rfl⟩
    · exact h.join .aborted trivial
    · exact h.join (.waiting l) trivial
    · exact h.join (.returned value) (h.cached expires value hcached)
  | started hload =>
    rcases hload with rfl | ⟨-, rfl, hfresh, hloading, hfull⟩
    · have hnew : Invariant c raw
          { s with loads := s.loads ++ [.queued], loading := some s.loads.length } := by
        refine ⟨h.limit, ?_, h.callers, h.cached⟩
        intro m other hm
        rcases getElem?_append_cases hm with hm | ⟨-, rfl⟩
        · exact h.loads m other hm
        · trivial
      exact hnew.join (.waiting s.loads.length) trivial
    · have hfree := hroom rfl hfresh hloading
      omega

theorem Invariant.quiet {e : Event} (h : Invariant c raw s) (hq : Quiet e s t) :
    Invariant c raw t where
  limit := by
    rw [hq.limit]
    exact h.limit
  loads := by
    rw [hq.loads]
    exact h.loads
  callers := by
    intro k caller hk
    rcases hq.callers k caller hk with hk | rfl | rfl | ⟨l, value, hl, rfl⟩ |
      ⟨l, failure, hl, rfl⟩
    · exact h.callers k caller hk
    · trivial
    · trivial
    · exact h.loads l _ hl
    · exact h.loads l _ hl
  cached := by
    rw [hq.cached]
    exact h.cached

theorem Invariant.next {e : Event} (h : Invariant c raw s) (ha : Accepts c raw)
    (hfits : c.document.length ≤ c.maxControlBytes raw) (hroom : Roomy s e t)
    (hnext : s.next c e = some t) : Invariant c raw t := by
  rcases next_cases hnext with ⟨aborted, rfl, rfl⟩ | ⟨l, a, load, rfl, hload, hact⟩ | hq
  · exact h.call (call_called aborted) hroom
  · exact h.act ha hfits hload hact
  · exact h.quiet hq

theorem invariant_initial (ha : Accepts c raw) :
    Invariant c raw (machine c).initial where
  limit := ha.small
  loads l load hl := by simp [machine] at hl
  callers k caller hk := by simp [machine] at hk
  cached expires value h := by cases h

theorem stable_of_invariant (h : Invariant c raw s) (ha : Accepts c raw) :
    Stable c (c.copyCapabilities raw) s := by
  have hset : ∀ {l : ℕ} {load next : Load κ δ}, s.loads[l]? = some load →
      (s.loads.set l next)[l]? = some next := by
    intro l load next hl
    obtain ⟨hlt, -⟩ := List.getElem?_eq_some_iff.mp hl
    exact List.getElem?_set_self hlt
  constructor
  case rejected => exact fun l failure hl => h.loads l _ hl
  case accepted => exact fun l found hl => h.loads l _ hl
  case returned => exact fun k found hk => h.callers k _ hk
  case failed => exact fun k failure hk => h.callers k _ hk
  case chunk =>
    intro l size chunks bytes hl hbytes
    obtain ⟨hsize, -⟩ := h.loads l _ hl
    have htaken := receive_eq h.limit hsize (List.isPrefixOf_iff_prefix.mp hbytes)
    refine ⟨s.setLoad l _, ?_, hset hl⟩
    simp only [Service.next, hl, Option.bind_some, Service.act, htaken, Option.map_some]
  case done =>
    intro l size chunks hl hchunks
    refine ⟨s.setLoad l (.received raw), (s.setLoad l (.received raw)).accept c l raw, ?_, ?_,
      ?_⟩
    · simp only [Service.next, hl, Option.bind_some, Service.act, finish_eq ha hchunks,
        Option.map_some]
    · have hreceived : (s.setLoad l (.received raw)).loads[l]? = some (.received raw) := hset hl
      simp only [Service.next, hreceived, Option.bind_some, Service.act]
    · rw [Service.accept, if_pos ha.valid]
      simp only [Service.setLoad, List.set_set]
      exact hset hl
  case deliver =>
    intro k l found hk hl
    have hfound : found = c.copyCapabilities raw := h.loads l _ hl
    obtain ⟨hlt, -⟩ := List.getElem?_eq_some_iff.mp hk
    refine ⟨s.setCaller k (.returned found), ?_, ?_⟩
    · simp only [Service.next, hk, hl, Option.bind_some, Service.settle]
    · rw [← hfound]
      exact List.getElem?_set_self hlt

def Load.Bounded (c : Config κ δ) : Load κ δ → Prop
  | .reading size chunks => size = chunks.flatten.length ∧ size ≤ CONTROL_LIMIT
  | .received raw => c.parseJson c.document = some raw ∧ c.document.length ≤ CONTROL_LIMIT
  | .accepted value => ∃ raw, Accepts c raw ∧ value = c.copyCapabilities raw
  | _ => True

structure Capped (c : Config κ δ) (s : Service κ δ) : Prop where
  limit : s.controlLimit ≤ CONTROL_LIMIT
  loads : ∀ (l : ℕ) (load : Load κ δ), s.loads[l]? = some load → load.Bounded c

theorem LoadStep.bounded {limit : ℕ} {load next : Load κ δ} (h : LoadStep c limit load next)
    (hlimit : limit ≤ CONTROL_LIMIT) (hload : load.Bounded c) : next.Bounded c := by
  cases h with
  | enroll => trivial
  | answer => exact ⟨rfl, Nat.zero_le _⟩
  | taken hbytes hsize =>
    obtain ⟨rfl, -⟩ := hload
    exact ⟨by simp, Nat.le_trans hsize hlimit⟩
  | parsed hchunks hraw =>
    obtain ⟨rfl, hsize⟩ := hload
    rw [hchunks] at hsize
    exact ⟨hraw, hsize⟩
  | accepted hvalid => exact ⟨_, ⟨hload.1, hvalid, hload.2⟩, rfl⟩
  | refused => trivial
  | unparsed => trivial
  | unsupported => trivial
  | expired => trivial

theorem Capped.next {e : Event} (h : Capped c s) (hnext : s.next c e = some t) :
    Capped c t := by
  rcases next_cases hnext with ⟨aborted, rfl, rfl⟩ | ⟨l, a, load, rfl, hload, hact⟩ | hq
  · have hcalled : Called s aborted (s.call aborted) := call_called aborted
    refine ⟨?_, ?_⟩
    · rw [hcalled.limit]
      exact h.limit
    · intro m other hm
      rcases hcalled.loads hm with hm | rfl | rfl
      · exact h.loads m other hm
      · trivial
      · trivial
  · obtain ⟨next, hacted⟩ := act_acted hact
    refine ⟨?_, ?_⟩
    · rcases hacted.memo with ⟨hlimit, -⟩ | ⟨raw, -, -, hlimit, -⟩
      · rw [hlimit]
        exact h.limit
      · rw [hlimit]
        exact Nat.min_le_left _ _
    · intro m other hm
      rw [hacted.loads] at hm
      rcases getElem?_set_cases hm with ⟨-, rfl⟩ | ⟨-, hm⟩
      · exact hacted.step.bounded h.limit (h.loads l load hload)
      · exact h.loads m other hm
  · refine ⟨?_, ?_⟩
    · rw [hq.limit]
      exact h.limit
    · rw [hq.loads]
      exact h.loads

/-- A document that some load accepted, under any limit, is accepted by a first load. -/
theorem accepts_of_accepted {es : List Event} {value : δ}
    (hrun : (machine c).run (machine c).initial es = some s)
    (hl : s.loads[l]? = some (.accepted value)) :
    ∃ raw, Accepts c raw ∧ value = c.copyCapabilities raw := by
  have hstep : ∀ (u : Service κ δ) (e : Event) (v : Service κ δ), Capped c u →
      (machine c).next u e = some v → Capped c v := fun u e v hu hv => hu.next hv
  have hstart : Capped c (machine c).initial := by
    refine ⟨Nat.le_refl _, ?_⟩
    intro m load hm
    simp [machine] at hm
  exact (Machine.run_preserves hstep hstart hrun).loads l _ hl

theorem others_next {e : Event} (h : s.next c e = some t) (he : e ≠ .enter)
    (hs : s.others = 0) : t.others = 0 := by
  rcases next_cases h with ⟨aborted, -, rfl⟩ | ⟨l, a, load, -, -, hact⟩ | hq
  · rw [(call_called aborted).others, hs]
  · obtain ⟨next, hacted⟩ := act_acted hact
    rw [hacted.others, hs]
  · have := hq.others he
    omega

theorem length_next {e : Event} (h : s.next c e = some t) :
    t.loads.length ≤ s.loads.length + 1 := by
  rcases next_cases h with ⟨aborted, -, rfl⟩ | ⟨l, a, load, -, -, hact⟩ | hq
  · exact (call_called aborted).length
  · obtain ⟨next, hacted⟩ := act_acted hact
    rw [hacted.loads, List.length_set]
    omega
  · rw [hq.loads]
    omega

/-- Without other control traffic a short run has room for its loads. -/
theorem roomy_alone {es : List Event} (hes : .enter ∉ es) (hs : s.others = 0)
    (hshort : s.loads.length + es.length < controlSlots) :
    (machine c).Along Roomy s es := by
  induction es generalizing s with
  | nil => trivial
  | cons e es ih =>
    intro t ht
    have he : e ≠ .enter := fun heq => hes (by simp [heq])
    have hlength := length_next ht
    rw [List.length_cons] at hshort
    constructor
    · intro _ _ _
      have hcount := s.loads.countP_le_length (p := Load.inFlight)
      unfold Service.occupied
      omega
    · apply ih (fun hin => hes (by simp [hin])) (others_next ht he hs)
      omega

def firstLoad (c : Config κ δ) : List Event :=
  [.call false, .load 0 .enroll, .load 0 .answer, .load 0 (.chunk c.document), .load 0 .done,
    .load 0 .accept, .deliver 0, .clear 0, .tick c.ttlMs]

def secondLoad (c : Config κ δ) : List Event :=
  [.call false, .load 1 .enroll, .load 1 .answer, .load 1 (.chunk c.document), .deliver 1]

def expired (c : Config κ δ) (raw : κ) : Service κ δ :=
  ⟨c.ttlMs, min CONTROL_LIMIT (c.maxControlBytes raw), some (c.ttlMs, c.copyCapabilities raw),
    none, 0, [.accepted (c.copyCapabilities raw)], [.returned (c.copyCapabilities raw)]⟩

theorem firstLoad_run (ha : Accepts c raw) :
    (machine c).run (machine c).initial (firstLoad c) = some (expired c raw) := by
  have hreceive : Load.receive c CONTROL_LIMIT 0 [] c.document =
      some (.reading (0 + c.document.length) ([] ++ [c.document])) :=
    receive_eq ha.small rfl (List.prefix_refl _)
  have hfinish : Load.finish c ([] ++ [c.document]) = some (.received raw) :=
    finish_eq ha (by simp)
  simp only [List.nil_append] at hreceive hfinish
  simp [firstLoad, expired, Machine.run, machine, Service.next, Service.call, Service.fresh,
    Service.join, Service.act, Service.setLoad, Service.setCaller, Service.accept,
    Service.settle, Service.occupied, Load.settled, controlSlots, hreceive, hfinish, ha.valid]

/-- The second load is read under the limit of the first one. -/
theorem secondLoad_run (hlong : c.maxControlBytes raw < c.document.length) :
    ∃ s, (machine c).run (expired c raw) (secondLoad c) = some s ∧
      s.callers = [.returned (c.copyCapabilities raw), .failed .protocol] := by
  have hover : 0 + c.document.length > min CONTROL_LIMIT (c.maxControlBytes raw) := by omega
  have hreceive : Load.receive c (min CONTROL_LIMIT (c.maxControlBytes raw)) 0 [] c.document =
      some (.rejected .protocol) := by
    rw [Load.receive, if_pos (by simp), if_pos hover]
  refine ⟨{ expired c raw with
    loading := some 1
    loads := [.accepted (c.copyCapabilities raw), .rejected .protocol]
    callers := [.returned (c.copyCapabilities raw), .failed .protocol] }, ?_, rfl⟩
  simp [secondLoad, expired, Machine.run, machine, Service.next, Service.call, Service.fresh,
    Service.join, Service.act, Service.setLoad, Service.setCaller, Service.settle,
    Service.occupied, Load.inFlight, controlSlots, hreceive]

/-- A document beyond its own limit is an error when it is loaded again. -/
theorem not_stable_of_long (ha : Accepts c raw)
    (hlong : c.maxControlBytes raw < c.document.length) :
    ∃ s, (machine c).run (machine c).initial (firstLoad c ++ secondLoad c) = some s ∧
      (machine c).Along Roomy (machine c).initial (firstLoad c ++ secondLoad c) ∧
      s.callers = [.returned (c.copyCapabilities raw), .failed .protocol] ∧
      ¬ Stable c (c.copyCapabilities raw) s := by
  obtain ⟨s, hrun, hcallers⟩ := secondLoad_run hlong
  refine ⟨s, Machine.run_trans (firstLoad_run ha) hrun, ?_, hcallers, ?_⟩
  · apply roomy_alone _ rfl
    · simp [firstLoad, secondLoad, machine, controlSlots]
    · simp [firstLoad, secondLoad]
  · intro hs
    have hfailed : s.callers[1]? = some (.failed .protocol) := by rw [hcallers]; rfl
    cases hs.failed 1 .protocol hfailed

def documentText (limit : ℕ) : List String :=
  ["\x7b\"service\":\"ja3proxy\",\"build\":\"1\",\"profiles\":[\"chrome_154\"],\"headerDescr",
    "iptors\":[],\"profileAliases\":\x7b\x7d,\"framing\":\x7b\"contentType\":\"application/vn",
    "d.ja3proxy\",\"maxMetadataBytes\":65536,\"maxDataBytes\":65536,\"maxUploadFrames\":1024",
    "\x7d,\"limits\":\x7b\"maxRequestBytes\":64,\"maxResponseBytes\":64,\"maxTimeoutMs\":64,",
    "\"maxConcurrent\":64,\"maxConcurrentPerPartition\":64,\"maxQueued\":64,\"maxQueuedPerPar",
    "tition\":64,\"maxEnvelopes\":64,\"envelopeTimeoutMs\":64,\"maxControlBytes\":",
    toString limit,
    ",\"maxHeaderBytes\":64,\"maxHeaders\":64,\"maxContexts\":64,\"maxContextsPerPartition\":",
    "64,\"contextIdleTtlMs\":64,\"contextMaxIdleTtlMs\":64,\"contextMaxAgeMs\":64,\"maxCookie",
    "s\":64,\"maxCookieBytes\":64,\"maxCookieSize\":64,\"maxAllowedOrigins\":64,\"registryCap",
    "acity\":64,\"registryTtlMs\":64\x7d,\"modes\":\x7b\"egress\":[\"direct\"],\"cookies\":[",
    "\"external\"],\"stream\":[\"upload\",\"download\"],\"cancel\":[\"request\",\"stream-drop",
    "\"]\x7d\x7d"]

@[irreducible]
def documentBytes (limit : ℕ) : List UInt8 :=
  (documentText limit).flatMap fun piece => piece.toUTF8.data.toList

def sample (limit : ℕ) : Config (List UInt8 × ℕ) (List UInt8 × ℕ) where
  parseJson bytes := if bytes = documentBytes limit then some (bytes, limit) else none
  capabilities _ := true
  maxControlBytes := Prod.snd
  copyCapabilities := id
  ttlMs := 60000
  document := documentBytes limit

theorem accepts_sample {limit : ℕ} (h : (documentBytes limit).length ≤ CONTROL_LIMIT) :
    Accepts (sample limit) (documentBytes limit, limit) :=
  ⟨if_pos rfl, rfl, h⟩

/-- A service that answers every load with a document it was once accepted with keeps its value,
as long as its loads find room, exactly when the document is no longer than its own
`limits.maxControlBytes`. -/
theorem refresh_stable_iff (c : Config κ δ) (raw : κ) (value : δ) (first : List Event)
    (s₁ : Service κ δ) (hraw : c.parseJson c.document = some raw)
    (hfirst : (machine c).run (machine c).initial first = some s₁)
    (hvalue : s₁.loads[0]? = some (.accepted value)) :
    (∀ (es : List Event) (s : Service κ δ), (machine c).run (machine c).initial es = some s →
      (machine c).Along Roomy (machine c).initial es → Stable c value s) ↔
    c.document.length ≤ c.maxControlBytes raw := by
  obtain ⟨found, ha, rfl⟩ := accepts_of_accepted hfirst hvalue
  have hsame : found = raw := Option.some.inj (ha.parsed.symm.trans hraw)
  subst hsame
  constructor
  · intro hstable
    by_contra hlong
    obtain ⟨s, hrun, hroom, -, hs⟩ := not_stable_of_long ha (Nat.not_le.mp hlong)
    exact hs (hstable _ s hrun hroom)
  · intro hfits es s hrun hroom
    have hstep : ∀ (u : Service κ δ) (e : Event) (v : Service κ δ), Invariant c found u →
        Roomy u e v → (machine c).next u e = some v → Invariant c found v :=
      fun u e v hu hr hv => hu.next ha hfits hr hv
    exact stable_of_invariant
      (Machine.run_preserves_along hstep (invariant_initial ha) hroom hrun) ha

/-- With the default limit of the service the document stays accepted. -/
theorem refresh_stable_default :
    (documentBytes 1048576).length = 844 ∧
    ∀ (es : List Event) (s : Service (List UInt8 × ℕ) (List UInt8 × ℕ)),
      (machine (sample 1048576)).run (machine (sample 1048576)).initial es = some s →
      (machine (sample 1048576)).Along Roomy (machine (sample 1048576)).initial es →
      Stable (sample 1048576) (documentBytes 1048576, 1048576) s := by
  have hlength : (documentBytes 1048576).length = 844 := by decide +kernel
  have hfits : (documentBytes 1048576).length ≤ 1048576 := by omega
  have ha : Accepts (sample 1048576) (documentBytes 1048576, 1048576) := accepts_sample hfits
  refine ⟨hlength, ?_⟩
  exact (refresh_stable_iff (sample 1048576) (documentBytes 1048576, 1048576)
    (documentBytes 1048576, 1048576) (firstLoad (sample 1048576)) _ ha.parsed
    (firstLoad_run ha) rfl).mpr hfits

/-- With a limit of 512 bytes the document is accepted once and is an error after its expiry. -/
theorem small_limit_not_stable :
    (documentBytes 512).length = 840 ∧ Accepts (sample 512) (documentBytes 512, 512) ∧
    ∃ s, (machine (sample 512)).run (machine (sample 512)).initial
        (firstLoad (sample 512) ++ secondLoad (sample 512)) = some s ∧
      (machine (sample 512)).Along Roomy (machine (sample 512)).initial
        (firstLoad (sample 512) ++ secondLoad (sample 512)) ∧
      s.callers = [.returned (documentBytes 512, 512), .failed .protocol] ∧
      ¬ Stable (sample 512) (documentBytes 512, 512) s := by
  have hlength : (documentBytes 512).length = 840 := by decide +kernel
  have ha : Accepts (sample 512) (documentBytes 512, 512) := by
    apply accepts_sample
    rw [hlength]
    decide
  have hlong : (sample 512).maxControlBytes (documentBytes 512, 512) <
      (sample 512).document.length := by
    change 512 < (documentBytes 512).length
    rw [hlength]
    decide
  exact ⟨hlength, ha, not_stable_of_long ha hlong⟩

end CapabilityRefresh
