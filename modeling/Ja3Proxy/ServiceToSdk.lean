import Ja3Proxy.ResponseTranscript
import Ja3Proxy.SafeIntegers
import Ja3Proxy.SdkResponse

/-! The response stream of the service as the SDK reads it: whatever ends in a frame of kind 3
is accepted, under the statuses, bodies and numbers that the SDK takes. -/
namespace ServiceToSdk

open FrameReader (Bytes maxMetadataBytes maxDataBytes)
open AsciiText (hexId latin1 tokenChar)
open SafeIntegers (maxSafe)
open ResponseHeaders ResponseStream ResponseTranscript SdkErrors SdkResponse TransitionRuns
open SdkExchange hiding Event machine

structure Profiles where
  profiles : List String
  aliases : List (String × String)
  named : ∀ profile ∈ profiles, profileName profile = true
  apart : ∀ pair ∈ aliases, pair.1 ∉ profiles ∧ pair.2 ∈ profiles

def Profiles.resolveProfile (t : Profiles) (name : String) : Option String :=
  if t.profiles.contains name then some name else t.aliases.lookup name

def Profiles.canonicalProfileName (t : Profiles) (name : String) : Option String :=
  if t.profiles.contains ((t.aliases.lookup name).getD name) then
    some ((t.aliases.lookup name).getD name)
  else none

theorem mem_of_lookup {aliases : List (String × String)} {name target : String}
    (h : aliases.lookup name = some target) : (name, target) ∈ aliases := by
  induction aliases with
  | nil => cases h
  | cons first aliases ih =>
    rw [List.lookup_cons] at h
    split at h
    next heq =>
      cases h
      rw [beq_iff_eq.mp heq]
      exact List.mem_cons_self
    next => exact List.mem_cons_of_mem _ (ih h)

/-- Both ends name the same concrete profile. -/
theorem canonical_eq_resolve (t : Profiles) (name : String) :
    t.canonicalProfileName name = t.resolveProfile name := by
  unfold Profiles.canonicalProfileName Profiles.resolveProfile
  cases hlookup : t.aliases.lookup name with
  | none => rfl
  | some target =>
    obtain ⟨hname, htarget⟩ := t.apart _ (mem_of_lookup hlookup)
    simp [hname, htarget]

structure Safe (d : TransportErrors.Diagnostics) : Prop where
  numbers : d.attempt ≤ maxSafe ∧ d.queueMs ≤ maxSafe ∧ d.totalMs ≤ maxSafe ∧
    d.requestBytes ≤ maxSafe ∧ d.responseBytes ≤ maxSafe
  headersMs : ∀ n ∈ d.headersMs, n ≤ maxSafe
  bodyMs : ∀ n ∈ d.bodyMs, n ≤ maxSafe
  cookieRevision : ∀ n ∈ d.cookieRevision, n ≤ maxSafe

/-- The value that the SDK reads from the JSON of the service. -/
def view (d : TransportErrors.Diagnostics) : Diagnostics where
  requestId := d.requestId
  attempt := d.attempt
  phase := d.phase
  delivery := d.delivery
  queueMs := d.queueMs
  headersMs := d.headersMs
  bodyMs := d.bodyMs
  totalMs := d.totalMs
  requestBytes := d.requestBytes
  responseBytes := d.responseBytes
  tlsProfile := d.tlsProfile
  traceId := some d.traceId
  spanId := some d.spanId
  clientReused := d.clientReused
  contextId := d.contextId
  cookieRevision := d.cookieRevision

def viewMetadata (value : ResponseStream.ResponseMetadata) :
    SdkErrors.ResponseMetadata :=
  ⟨value.requestId, value.status, value.headers, view value.diagnostics, value.cookieRevision⟩

/-- `JSON.parse` and the validators read back what `serde_json` has written into these frames. -/
structure ReadsBack (c : Codec) (p : Parsers) (frames : List Bytes) : Prop where
  metadata : ∀ value, FrameReader.frame 1 (c.metadata value) ∈ frames → Safe value.diagnostics →
    (∀ n ∈ value.cookieRevision, n ≤ maxSafe) →
    p.metadata (c.metadata value) = .accepted (viewMetadata value)
  diagnostics : ∀ d, FrameReader.frame 3 (c.diagnostics d) ∈ frames → Safe d →
    p.complete (c.diagnostics d) = .accepted (view d)

/-- The exchange is the one that the call has sent, and the SDK knows the service. -/
structure Issued (t : Profiles) (g : Reading) (x : Exchange) : Prop where
  limits : g.limits.metadata = maxMetadataBytes ∧ g.limits.data = maxDataBytes
  requestId : x.requestId = g.call.requestId ∧ opaqueText g.call.requestId = true
  attempt : x.attempt.toNat = g.call.attempt ∧ g.call.attempt ≤ maxSafe
  context : x.owner.contextId = g.call.target.contextId ∧
    ∀ contextId ∈ g.call.target.contextId, opaqueText contextId = true
  head : g.call.head = (x.method == "HEAD")
  maxResponseBytes : x.maxResponseBytes = g.call.maxResponseBytes
  offered : x.owner.profile.name ∈ t.profiles
  profile : ∀ profile ∈ g.call.profile, ∃ name, t.resolveProfile name = some profile ∧
    t.canonicalProfileName name = some x.owner.profile.name

variable {t : Profiles} {g : Reading} {x : Exchange} {w : World} {r : Upstream}
  {value : ResponseStream.ResponseMetadata} {d : TransportErrors.Diagnostics}

theorem safe_of_kept (hissued : Issued t g x) (h : Kept x maxSafe d)
    (hbytes : d.responseBytes ≤ x.maxResponseBytes) : Safe d := by
  have hattempt : d.attempt ≤ maxSafe := by
    rw [h.sameAttempt, hissued.attempt.1]
    exact hissued.attempt.2
  have hrequest := h.requested
  have hrequestLimit := x.requestLimit_le
  have hresponseLimit := x.maxResponseBytes_le
  have hsafe : 2 ^ 30 ≤ maxSafe := by decide
  exact ⟨⟨hattempt, h.times.1, h.times.2, by omega, by omega⟩, h.headersTime, h.bodyTime, h.revised⟩

theorem profile_eq (hissued : Issued t g x) :
    ∀ profile ∈ g.call.profile, x.owner.profile.name = profile := by
  intro profile hprofile
  obtain ⟨name, hresolve, hcanonical⟩ := hissued.profile profile hprofile
  rw [canonical_eq_resolve, hresolve] at hcanonical
  exact (Option.some.inj hcanonical).symm

/-- Diagnostics of an answered request pass the checks of the SDK. -/
theorem diagnosticsOk_view (hissued : Issued t g x) (h : Kept x maxSafe d) (ha : Answered x d) :
    diagnosticsOk (view d) (some (g.call.requestId, g.call.attempt)) = true := by
  have hname : profileName d.tlsProfile = true := by
    rw [ha.profile]
    exact t.named _ hissued.offered
  have hne : d.tlsProfile ≠ "" := by
    intro hempty
    rw [hempty] at hname
    exact absurd hname (by decide)
  have htrace : hexId 32 d.traceId = true := by
    rw [h.sameTrace.1]
    exact x.traceId_hex
  have hspan : hexId 16 d.spanId = true := by
    rw [h.sameTrace.2]
    exact x.spanId_hex
  have hid : d.requestId = g.call.requestId := h.sameRequest.trans hissued.requestId.1
  have hattempt : d.attempt = g.call.attempt := h.sameAttempt.trans hissued.attempt.1
  have hcontext : d.contextId.all opaqueText = true := by
    rw [h.sameContext, hissued.context.1]
    cases htarget : g.call.target.contextId with
    | none => rfl
    | some contextId => exact hissued.context.2 contextId htarget
  simp only [diagnosticsOk, view, hid, hattempt, hissued.requestId.2, hne, hname, htrace, hspan,
    hcontext, Option.all_some, Bool.and_true, beq_self_eq_true, beq_iff_eq, if_false]

theorem tokenChar_of_nameChar {c : Char} (h : nameChar c = true) : tokenChar c = true := by
  simp only [nameChar, Bool.and_eq_true] at h
  exact h.1

theorem byte_ne {b : UInt8} {c : Char} (h : valueByte b = true)
    (hc : valueByte (UInt8.ofNat c.toNat) = false) : Char.ofNat b.toNat ≠ c := by
  rintro rfl
  have hvalid : b.toNat.isValidChar := .inl (Nat.lt_trans b.toNat_lt (by decide))
  have hnat : (Char.ofNat b.toNat).toNat = b.toNat := by
    rw [Char.ofNat, dif_pos hvalid]
    rfl
  rw [hnat, UInt8.ofNat_toNat, h] at hc
  cases hc

theorem latin1_ok {value : Bytes} (h : value.all valueByte = true) :
    (latin1 value).toList.all (fun c => c != '\r' && c != '\n' && c != Char.ofNat 0) = true := by
  simp only [latin1, String.toList_ofList, List.all_map, List.all_eq_true, Function.comp] at h ⊢
  intro b hb
  simp only [Bool.and_eq_true, bne_iff_ne]
  exact ⟨⟨byte_ne (h b hb) (by decide), byte_ne (h b hb) (by decide)⟩, byte_ne (h b hb) (by decide)⟩

/-- Header fields of the service are pairs that the SDK takes. -/
theorem headerPairs_of_response {headers : List HeaderField} {bodyless : Bool}
    {out : List (String × String)} (h : responseHeaders headers bodyless = .ok out) :
    headerPairs out = true := by
  rw [headerPairs, List.all_eq_true]
  intro pair hpair
  obtain ⟨field, -, rfl⟩ := responseHeaders_mem h pair hpair
  have hname : field.name.toList.all tokenChar = true := by
    rw [List.all_eq_true]
    exact fun c hc => tokenChar_of_nameChar (List.all_eq_true.mp field.name_ok c hc)
  simp only [hname, latin1_ok field.value_ok, Bool.and_true, Bool.not_eq_true',
    List.isEmpty_eq_false_iff]
  exact field.name_ne

theorem metadataOk_view (hissued : Issued t g x) (h : HeadOf x maxSafe r value)
    (hstatus : 200 ≤ r.status ∧ r.status ≤ 599) :
    metadataOk g.call (viewMetadata value) = true := by
  have hid : value.requestId = g.call.requestId := h.requestId.trans hissued.requestId.1
  have hdelivery : (view value.diagnostics).delivery = .responseStarted := h.answered.delivery
  have hcontext : (g.call.target.contextId.all fun contextId =>
      (view value.diagnostics).contextId == some contextId) = true := by
    have hsame : (view value.diagnostics).contextId = g.call.target.contextId :=
      h.kept.sameContext.trans hissued.context.1
    rw [hsame]
    cases g.call.target.contextId <;> simp
  have hprofile : (g.call.profile.all fun profile =>
      (view value.diagnostics).tlsProfile == profile) = true := by
    have hsame : (view value.diagnostics).tlsProfile = x.owner.profile.name := h.answered.profile
    rw [hsame]
    cases hp : g.call.profile with
    | none => rfl
    | some profile => simpa using profile_eq hissued profile hp
  simp only [metadataOk, responseMetadataOk, viewMetadata, hid, h.status, hstatus.1, hstatus.2,
    headerPairs_of_response h.headers, diagnosticsOk_view hissued h.kept h.answered, hdelivery,
    hcontext, hprofile, beq_self_eq_true, decide_true, Bool.and_self]

theorem payloads_nil {payloads : List Bytes} (hcut : Cut payloads) (h : payloads.flatten = []) :
    payloads = [] := by
  cases payloads with
  | nil => rfl
  | cons payload payloads =>
    have hpos := (hcut payload List.mem_cons_self).1
    rw [List.flatten_cons, List.append_eq_nil_iff] at h
    rw [h.1] at hpos
    cases hpos

def responseOf (x : Exchange) (value : ResponseStream.ResponseMetadata) (payloads : List Bytes)
    (d : TransportErrors.Diagnostics) : Response :=
  ⟨x.codec.metadata value, payloads, x.codec.diagnostics d⟩

/-- A success of the service is a response within the grammar of the SDK. -/
theorem wellFormed_of_succeeded {status : RequestRecord.RequestStatus} {tr : Transcript}
    (hissued : Issued t g x) (hread : ReadsBack x.codec g.parsers w.yielded)
    (hyielded : w.yielded = tr.frames) (hcut : Cut tr.payloads)
    (htotal : tr.payloads.flatten.length ≤ x.maxResponseBytes)
    (hs : Succeeded x maxSafe w status tr r value) (hstatus : 200 ≤ r.status ∧ r.status ≤ 599)
    (hbody : x.method = "HEAD" ∨ r.status ∈ [204, 205, 304] → r.content = []) :
    (responseOf x value tr.payloads status.diagnostics).WellFormed g (viewMetadata value)
      (view status.diagnostics) := by
  have hfirst : FrameReader.frame 1 (x.codec.metadata value) ∈ w.yielded := by
    rw [hyielded, Transcript.frames, hs.head]
    exact List.mem_append_left _ List.mem_cons_self
  have hlast : FrameReader.frame 3 (x.codec.diagnostics status.diagnostics) ∈ w.yielded := by
    rw [hyielded, Transcript.frames, hs.last]
    simp
  have hbytes : status.diagnostics.responseBytes ≤ x.maxResponseBytes := by
    rw [hs.bytes]
    exact htotal
  have hheadSafe : Safe value.diagnostics :=
    safe_of_kept hissued hs.headOf.kept (by rw [hs.headOf.bytes]; exact Nat.zero_le _)
  have hrevision : ∀ n ∈ value.cookieRevision, n ≤ maxSafe := by
    rw [← hs.headOf.revision]
    exact hheadSafe.cookieRevision
  refine ⟨hread.metadata value hfirst hheadSafe hrevision,
    metadataOk_view hissued hs.headOf hstatus, ?_⟩
  refine ⟨?_, ?_, ?_, hread.diagnostics _ hlast (safe_of_kept hissued hs.kept hbytes), ?_⟩
  · intro payload hp
    rw [hissued.limits.2]
    exact hcut payload hp
  · rw [← hissued.maxResponseBytes, Nat.zero_add]
    exact htotal
  · intro hbodyless
    have hnone : x.method = "HEAD" ∨ r.status ∈ [204, 205, 304] := by
      simpa [SdkExchange.bodyless, viewMetadata, hissued.head, hs.headOf.status] using hbodyless
    exact payloads_nil hcut (hs.content.trans (hbody hnone))
  · refine ⟨diagnosticsOk_view hissued hs.kept hs.answered, hs.phase,
      hs.answered.delivery, ?_, ?_, ?_⟩
    · rw [Nat.zero_add]
      exact hs.bytes
    · intro contextId hcontext
      show status.diagnostics.contextId = some contextId
      rw [hs.kept.sameContext, hissued.context.1]
      exact hcontext
    · intro revision hr
      show status.diagnostics.cookieRevision = some revision
      rw [hs.revision]
      exact hr

theorem frames_flatten {tr : Transcript} {json : Bytes} (hhead : tr.head = some json)
    {complete : Bytes} (hlast : tr.last = FrameReader.frame 3 complete) :
    tr.frames.flatten = (⟨json, tr.payloads, complete⟩ : Response).bytes := by
  simp [Transcript.frames, Response.bytes, hhead, hlast, List.flatMap]

/-- The SDK accepts every success of the service whose status it knows, without a body where Fetch
has none, and with numbers that it can hold; however the stream is cut into chunks, it hands out
the upstream body and completes with the final diagnostics of the service. -/
theorem success_accepted (hcodec : x.codec.Bounded) {es : List Event}
    (hrun : (machine x).run (.initial x) es = some w) (hended : w.ended = true)
    (hlast : ∃ json, w.yielded.getLast? = some (FrameReader.frame 3 json))
    (hissued : Issued t g x) (hread : ReadsBack x.codec g.parsers w.yielded)
    (hresponse : w.response = some r) (hstatus : 200 ≤ r.status ∧ r.status ≤ 599)
    (hbody : x.method = "HEAD" ∨ r.status ∈ [204, 205, 304] → r.content = [])
    (hclock : w.clock / 1000000 ≤ maxSafe)
    (hrevised : ∀ revision, .cookies revision ∈ es ∨ .absorbed (some revision) ∈ es →
      revision.toNat ≤ maxSafe)
    (queueMs : ℕ) (m : Meter) {chunks : List Bytes} (hchunks : chunks.flatten = w.yielded.flatten) :
    ∃ result, g.executeStream queueMs m serviceHead chunks = some result ∧
      Succeeds result (view w.record.diagnostics) ∧ result.2 = r.content := by
  obtain ⟨tr, hyielded, -, hcut, htotal, -, -, hends⟩ :=
    transcript_of_ended hcodec hrun hended hclock hrevised
  rcases hends with ⟨error, -, -, hfour⟩ | ⟨r', value, hs⟩
  · obtain ⟨json, hlast⟩ := hlast
    rw [hyielded, Transcript.frames, ← List.append_assoc, List.getLast?_append, hfour] at hlast
    cases hlast
  · have hsame : r' = r := Option.some.inj (hs.response.symm.trans hresponse)
    subst hsame
    have hwf := wellFormed_of_succeeded hissued hread hyielded hcut htotal hs hstatus hbody
    have hbound : (responseOf x value tr.payloads w.record.diagnostics).Bounded g.limits := by
      constructor
      · rw [hissued.limits.1]
        exact hs.headOf.size
      · rw [hissued.limits.1]
        exact hcodec.diagnostics _ hs.kept.toSmall
    have hbytes : chunks.flatten = (responseOf x value tr.payloads w.record.diagnostics).bytes := by
      rw [hchunks, hyielded]
      exact frames_flatten hs.head hs.last
    have hrest : (⟨[], chunks⟩ : Source).rest = chunks.flatten := by simp [Source.rest]
    have hfuel : (⟨[], chunks⟩ : Source).rest.length < chunks.flatten.length + 1 := by
      rw [hrest]
      omega
    obtain ⟨hsucceeds, hout⟩ :=
      succeeds_of_response (t := opened g.call queueMs) rfl rfl rfl hfuel
        (hrest.trans hbytes) hwf hbound
    exact ⟨_, executeStream_streams hissued.requestId.2 (by decide), hsucceeds,
      hout.trans hs.content⟩

def plainProfiles : Profiles where
  profiles := ["chrome_131", "chrome_155"]
  aliases := [("chrome_stable", "chrome_155")]
  named := by decide
  apart := by decide

def plainReading (status : ℕ) (revision : Option ℕ) : Reading where
  call := {
    mode := .stream
    target := if revision.isSome then .context "c1" else .connection
    requestId := "r1"
    attempt := 0
    head := false
    tlsProfile := "chrome_131"
    profile := if revision.isSome then none else some "chrome_131"
    usedProxy := false
    maxResponseBytes := 10
    controlLimit := 1024 }
  limits := wide
  parsers := {
    metadata := fun json =>
      if json = plainHeadBytes status revision then
        if revision.all (Nat.ble · maxSafe) then
          .accepted (viewMetadata (plainHead status revision))
        else .refused
      else .malformed
    complete := fun json =>
      if json = plainFinalBytes revision then
        if revision.all (Nat.ble · maxSafe) then .accepted (view (plainFinal revision))
          else .refused
      else .malformed
    error := fun _ => .malformed }
  meter := fun _ => ⟨0, 0⟩

theorem plain_issued (status : ℕ) (revision : Option ℕ) :
    Issued plainProfiles (plainReading status revision) (plainExchange status revision) where
  limits := ⟨rfl, rfl⟩
  requestId := ⟨rfl, show opaqueText "r1" = true by decide⟩
  attempt := ⟨rfl, Nat.zero_le _⟩
  context := by
    cases revision with
    | none => exact ⟨rfl, nofun⟩
    | some revision =>
      refine ⟨rfl, ?_⟩
      rintro contextId ⟨⟩
      decide
  head := rfl
  maxResponseBytes := rfl
  offered := by cases revision <;> exact List.mem_cons_self
  profile := by
    cases revision with
    | none =>
      rintro profile ⟨⟩
      exact ⟨"chrome_131", by decide,
        show plainProfiles.canonicalProfileName "chrome_131" = some "chrome_131" by decide⟩
    | some revision => exact nofun

def plainFrames (status : ℕ) (revision : Option ℕ) : List Bytes :=
  [FrameReader.frame 1 (plainHeadBytes status revision), FrameReader.frame 2 [104, 105],
    FrameReader.frame 3 (plainFinalBytes revision)]

theorem frame_ne_empty {kind kind' : UInt8} {payload : Bytes} (h : payload ≠ []) :
    FrameReader.frame kind [] ≠ FrameReader.frame kind' payload := by
  intro heq
  have hlen := congrArg List.length heq
  simp only [FrameReader.frame, FrameReader.toBeBytes, List.length_cons, List.length_append,
    List.length_nil] at hlen
  exact h (List.length_eq_zero_iff.mp (by omega))

theorem plain_reads {status : ℕ} {revision : Option ℕ} (hhead : plainHeadBytes status revision ≠ [])
    (hfinal : plainFinalBytes revision ≠ []) :
    ReadsBack (plainCodec status revision) (plainReading status revision).parsers
      (plainFrames status revision) := by
  have hempty : ∀ kind, FrameReader.frame kind [] ∉ plainFrames status revision := by
    intro kind hmem
    simp only [plainFrames, List.mem_cons, List.not_mem_nil, or_false] at hmem
    rcases hmem with heq | heq | heq
    · exact frame_ne_empty hhead heq
    · exact frame_ne_empty (by decide) heq
    · exact frame_ne_empty hfinal heq
  constructor
  · intro value hmem hsafe hrevision
    by_cases hvalue : value = plainHead status revision
    · subst hvalue
      have hall : revision.all (Nat.ble · maxSafe) = true := by
        cases revision with
        | none => rfl
        | some n => simpa using hrevision n rfl
      simp [plainCodec, plainReading, hall]
    · simp only [plainCodec, hvalue, if_false] at hmem
      exact absurd hmem (hempty 1)
  · intro d hmem hsafe
    by_cases hd : d = plainFinal revision
    · subst hd
      have hall : revision.all (Nat.ble · maxSafe) = true := by
        cases revision with
        | none => rfl
        | some n => simpa using hsafe.cookieRevision n rfl
      simp [plainCodec, plainReading, hall]
    · simp only [plainCodec, hd, if_false] at hmem
      exact absurd hmem (hempty 3)

def plainEnds (status : ℕ) (revision : Option UInt64) : Bool :=
  ((machine (plainExchange status (revision.map UInt64.toNat))).run
    (.initial (plainExchange status (revision.map UInt64.toNat))) (plainRun status revision)).any
    fun w => w.ended && w.yielded == plainFrames status (revision.map UInt64.toNat) &&
      w.clock == 0 &&
      w.response.any fun r => r.status == status && r.content == [104, 105]

theorem success_accepted_two_bytes :
    ∃ w, (machine (plainExchange 200 none)).run (.initial (plainExchange 200 none))
        (plainRun 200 none) = some w ∧ w.ended = true ∧ w.yielded = plainFrames 200 none ∧
      ∃ result, (plainReading 200 none).executeStream 0 ⟨0, 0⟩ serviceHead
          [w.yielded.flatten.take 7, [], w.yielded.flatten.drop 7] = some result ∧
        Succeeds result (view w.record.diagnostics) ∧ result.2 = [104, 105] := by
  have hends : plainEnds 200 none = true := by decide +kernel
  obtain ⟨w, hw, hall⟩ := (Option.any_eq_true _ _).mp hends
  simp only [Bool.and_eq_true, beq_iff_eq] at hall
  obtain ⟨⟨⟨hended, hyielded⟩, hclock⟩, hany⟩ := hall
  obtain ⟨r, hresponse, hr⟩ := (Option.any_eq_true _ _).mp hany
  simp only [Bool.and_eq_true, beq_iff_eq] at hr
  have hreads : ReadsBack (plainCodec 200 none) (plainReading 200 none).parsers w.yielded := by
    rw [hyielded]
    exact plain_reads (by decide +kernel) (by decide +kernel)
  have hbody : (plainExchange 200 none).method = "HEAD" ∨ r.status ∈ [204, 205, 304] →
      r.content = [] := by
    rw [hr.1]
    rintro (hhead | hbodyless)
    · exact absurd hhead (by decide)
    · exact absurd hbodyless (by decide)
  refine ⟨w, hw, hended, hyielded, ?_⟩
  rw [← hr.2]
  exact success_accepted (plainCodec_bounded 200 (by decide +kernel)) hw hended
    ⟨plainFinalBytes none, by rw [hyielded]; rfl⟩ (plain_issued 200 none) hreads hresponse
    (by rw [hr.1]; decide) hbody (by rw [hclock]; decide)
    (fun revision hmem => by simp [plainRun] at hmem) 0 ⟨0, 0⟩ (by simp)

def Refused (status : ℕ) (revision : Option UInt64) : Prop :=
  ∃ w result, (plainExchange status (revision.map UInt64.toNat)).codec.Bounded ∧
    Issued plainProfiles (plainReading status (revision.map UInt64.toNat))
      (plainExchange status (revision.map UInt64.toNat)) ∧
    (machine (plainExchange status (revision.map UInt64.toNat))).run
      (.initial (plainExchange status (revision.map UInt64.toNat))) (plainRun status revision) =
        some w ∧
    w.ended = true ∧ (∃ json, w.yielded.getLast? = some (FrameReader.frame 3 json)) ∧
    ReadsBack (plainCodec status (revision.map UInt64.toNat))
      (plainReading status (revision.map UInt64.toNat)).parsers w.yielded ∧
    (plainReading status (revision.map UInt64.toNat)).executeStream 0 ⟨0, 0⟩ serviceHead
      [w.yielded.flatten] = some result ∧
    ∀ d, ¬ Succeeds result d

theorem refused_of_failure {status : ℕ} {revision : Option UInt64}
    (hends : plainEnds status revision = true)
    (hhead : plainHeadBytes status (revision.map UInt64.toNat) ≠ [])
    (hfinal : plainFinalBytes (revision.map UInt64.toNat) ≠ [])
    (hsize : (plainFinalBytes (revision.map UInt64.toNat)).length ≤ maxMetadataBytes)
    (hfails : ((plainReading status (revision.map UInt64.toNat)).executeStream 0 ⟨0, 0⟩ serviceHead
      [(plainFrames status (revision.map UInt64.toNat)).flatten]).any
        (fun result => result.1.outcome.isSome || result.1.failed) = true) :
    Refused status revision := by
  obtain ⟨w, hw, hall⟩ := (Option.any_eq_true _ _).mp hends
  simp only [Bool.and_eq_true, beq_iff_eq] at hall
  obtain ⟨⟨⟨hended, hyielded⟩, -⟩, -⟩ := hall
  obtain ⟨result, hresult, hfailed⟩ := (Option.any_eq_true _ _).mp hfails
  refine ⟨w, result, plainCodec_bounded status hsize, plain_issued _ _, hw, hended, ?_, ?_, ?_, ?_⟩
  · rw [hyielded]
    exact ⟨_, rfl⟩
  · rw [hyielded]
    exact plain_reads hhead hfinal
  · rw [hyielded]
    exact hresult
  · rintro d ⟨houtcome, hterminal⟩
    simp [houtcome, State.failed, hterminal] at hfailed

/-- A status 205 with a body, a status 600, and a revision of 2⁵³. -/
theorem success_refused :
    Refused 205 none ∧ Refused 600 none ∧ Refused 200 (some 9007199254740992) := by
  refine ⟨refused_of_failure ?_ ?_ ?_ ?_ ?_, refused_of_failure ?_ ?_ ?_ ?_ ?_,
    refused_of_failure ?_ ?_ ?_ ?_ ?_⟩
  all_goals decide +kernel

end ServiceToSdk
