import Ja3Proxy.FailedTranscript
import Ja3Proxy.ServiceToSdk

/-! A failed request of the service as the SDK sees it: the error of the last frame, with the
diagnostics of the service, is the error that the call or its body ends with. -/
namespace FailureReports

open FailedTranscript ResponseTranscript SdkErrors SdkResponse ServiceToSdk
open SdkExchange hiding Event
open AsciiText (hexId)
open SafeIntegers (maxSafe)
open FrameReader (Bytes maxMetadataBytes maxDataBytes)
open TransportErrors (ErrorCode TransportError)

/-- `JSON.parse` and the validators read back the errors in these frames. -/
def ReadsErrors (c : ResponseStream.Codec) (p : SdkResponse.Parsers) (frames : List Bytes) : Prop :=
  ∀ e d, FrameReader.frame 4 (c.error e) ∈ frames → e.diagnostics = some d → Safe d →
    p.error (c.error e) = .accepted ⟨e.code, some (view d)⟩

def reported (c : Call) (code : ErrorCode) (d : Diagnostics) : SdkError :=
  .new code d c.usedProxy none

variable {g : Reading} {t : State} {s s' : Source} {value : ResponseMetadata} {code : ErrorCode}
  {d : Diagnostics} {json : Bytes}

/-- Diagnostics that belong to the call are taken over. -/
theorem transportError_own {c : Call} {fallback : Diagnostics}
    (hid : fallback.requestId = c.requestId) (hattempt : fallback.attempt = c.attempt)
    (hd : diagnosticsOk d (some (c.requestId, c.attempt)) = true) :
    transportError (some ⟨code, some d⟩) fallback c.usedProxy true = reported c code d := by
  have hnone := diagnosticsOk_none hd
  have hknown : diagnosticsOk d fallback.known = true := by
    unfold Diagnostics.known
    split
    · exact hnone
    · rw [hid, hattempt]
      exact hd
  simp only [transportError, hknown, hid, hattempt, hd, hnone, reported, Bool.not_true,
    Bool.and_false, Bool.false_eq_true, if_false, if_true]

structure Denied (g : Reading) (code : ErrorCode) (d : Diagnostics) (json : Bytes) : Prop where
  parsed : g.parsers.error json = .accepted ⟨code, some d⟩
  small : json.length ≤ g.limits.metadata
  own : diagnosticsOk d (some (g.call.requestId, g.call.attempt)) = true

theorem read_denied {tail : Bytes} (h : Denied g code d json)
    (hrest : s.rest = FrameReader.frame 4 json ++ tail) :
    ∃ s', s.read g.limits g.parsers = .ok (some (.error (.accepted ⟨code, some d⟩)), s') ∧
      s'.rest = tail := by
  obtain ⟨s', hread, htail⟩ := read_frame g.limits g.parsers 4 hrest (by decide) h.small
  have hframe : g.parsers.parse 4 json = .error (.accepted ⟨code, some d⟩) := by
    simp [SdkResponse.Parsers.parse, h.parsed]
  rw [hframe] at hread
  exact ⟨s', hread, htail⟩

/-- An error in place of the head rejects the call. -/
theorem start_denied {fuel : ℕ} (hopen : t.terminal = none)
    (hid : t.diag.requestId = g.call.requestId)
    (hattempt : t.diag.attempt = g.call.attempt) (h : Denied g code d json)
    (hrest : s.rest = FrameReader.frame 4 json) :
    (g.start fuel t s).1.outcome = some (.error (reported g.call code d)) ∧
      (g.start fuel t s).1.terminal = some (.error (reported g.call code d)) ∧
      (g.start fuel t s).2 = [] := by
  have hframe : s.rest = FrameReader.frame 4 json ++ [] := by rw [hrest, List.append_nil]
  obtain ⟨s', hread, htail⟩ := read_denied h hframe
  have hfirst : firstFrame g.call t (g.meter fuel) (some (.error (.accepted ⟨code, some d⟩))) =
      { t with stage := .rejecting (reported g.call code d), reported := some d } := by
    simp [firstFrame, Json.value, reportedBy, transportError_own hid hattempt h.own]
  simp only [Reading.start, hread, hfirst, read_nil htail, afterError, fail, Call.normalize, hopen]
  refine ⟨rfl, ?_, trivial⟩
  simp [State.settle, State.finish]

/-- Payloads are handed out before the error, which then ends the body. -/
theorem pump_denied {fuel : ℕ} (body : Bytes) {ps : List Bytes} (hfuel : ps.length < fuel)
    (hrest : s.rest = ps.flatMap (FrameReader.frame 2) ++ FrameReader.frame 4 json)
    (hsizes : ∀ p ∈ ps, 1 ≤ p.length ∧ p.length ≤ g.limits.data)
    (htotal : t.responseBytes + ps.flatten.length ≤ g.call.maxResponseBytes)
    (hbodyless : bodyless g.call value = true → ps = [])
    (h : Denied g code d json) (hdelivery : d.delivery = .responseStarted)
    (hid : t.diag.requestId = g.call.requestId) (hattempt : t.diag.attempt = g.call.attempt)
    (hopen : t.terminal = none) :
    (g.pump value fuel t s body).1.outcome = t.outcome ∧
      (g.pump value fuel t s body).1.terminal = some (.error (reported g.call code d)) ∧
      (g.pump value fuel t s body).2 = body ++ ps.flatten := by
  induction ps generalizing fuel t s body with
  | nil =>
    cases fuel with
    | zero => cases hfuel
    | succ fuel =>
      have hframe : s.rest = FrameReader.frame 4 json ++ [] := by simpa using hrest
      obtain ⟨s', hread, htail⟩ := read_denied h hframe
      have hown : transportError (some ⟨code, some d⟩) (t.updateLocal (g.meter fuel))
          g.call.usedProxy true = reported g.call code d := transportError_own hid hattempt h.own
      have hlast :
          bodyFrame g.call t (g.meter fuel) value (some (.error (.accepted ⟨code, some d⟩))) =
          { t with stage := .reading (some (.failed (reported g.call code d))) } := by
        have hstarted : (reported g.call code d).delivery = .responseStarted := hdelivery
        simp [bodyFrame, Json.value, hown, hstarted]
      rw [pump_last hread hlast]
      simp [Reading.settle, read_nil htail, afterLast, State.finish, hopen]
  | cons p ps ih =>
    cases fuel with
    | zero => cases hfuel
    | succ fuel =>
      obtain ⟨hone, hle⟩ := hsizes p List.mem_cons_self
      rw [List.flatMap_cons, List.append_assoc] at hrest
      obtain ⟨s', hread, htail⟩ := read_frame g.limits g.parsers 2 hrest (by decide) hle
      have hframe : g.parsers.parse 2 p = .data p := rfl
      rw [hframe] at hread
      have hbody : bodyless g.call value = false := by
        cases hless : bodyless g.call value with
        | false => rfl
        | true => cases hbodyless hless
      rw [List.flatten_cons, List.length_append] at htotal
      have hne : p ≠ [] := List.length_pos_iff.mp hone
      rw [pump_data hread hbody hne (by omega), List.flatten_cons, ← List.append_assoc]
      refine ih _ (by simpa using hfuel) htail (fun q hq => hsizes q (List.mem_cons_of_mem _ hq)) ?_
        (fun hless => ?_) hid hattempt hopen
      · simp only [received]
        omega
      · rw [hbody] at hless
        cases hless

section Service

open ResponseStream (Event Exchange Upstream World machine)

variable {p : Profiles} {x : Exchange} {w : World} {final : TransportErrors.Diagnostics}

theorem safe_of_failed (hissued : Issued p g x) (h : Kept x maxSafe final)
    (hbytes : final.responseBytes ≤ maxSafe) : Safe final := by
  have hattempt : final.attempt ≤ maxSafe := by
    rw [h.sameAttempt, hissued.attempt.1]
    exact hissued.attempt.2
  have hrequest := h.requested
  have hlimit := x.requestLimit_le
  have hsafe : 2 ^ 30 ≤ maxSafe := by decide
  exact ⟨⟨hattempt, h.times.1, h.times.2, by omega, hbytes⟩, h.headersTime, h.bodyTime, h.revised⟩

/-- Diagnostics of a failed request pass the checks of the SDK, even where no profile is known. -/
theorem diagnosticsOk_failed (hissued : Issued p g x) (h : Kept x maxSafe final)
    (hnamed : Named x final) :
    diagnosticsOk (view final) (some (g.call.requestId, g.call.attempt)) = true := by
  have hprofile : (if (view final).tlsProfile == "" then (view final).delivery == .notStarted
      else profileName (view final).tlsProfile) = true := by
    rcases hnamed with hname | ⟨hempty, hdelivery⟩
    · have hok : profileName final.tlsProfile = true := by
        rw [hname]
        exact p.named _ hissued.offered
      have hne : final.tlsProfile ≠ "" := by
        intro hempty
        rw [hempty] at hok
        exact absurd hok (by decide)
      simp [view, hne, hok]
    · simp [view, hempty, hdelivery]
  have hid : final.requestId = g.call.requestId := h.sameRequest.trans hissued.requestId.1
  have hattempt : final.attempt = g.call.attempt := h.sameAttempt.trans hissued.attempt.1
  have htrace : hexId 32 final.traceId = true := by
    rw [h.sameTrace.1]
    exact x.traceId_hex
  have hspan : hexId 16 final.spanId = true := by
    rw [h.sameTrace.2]
    exact x.spanId_hex
  have hcontext : final.contextId.all opaqueText = true := by
    rw [h.sameContext, hissued.context.1]
    cases htarget : g.call.target.contextId with
    | none => rfl
    | some contextId => exact hissued.context.2 contextId htarget
  rw [diagnosticsOk, hprofile]
  simp only [view, hid, hattempt, hissued.requestId.2, htrace, hspan, hcontext, Option.all_some,
    Bool.and_true, beq_self_eq_true]

theorem denied_of_failed (hissued : Issued p g x)
    (herrors : ReadsErrors x.codec g.parsers w.yielded)
    (hcontent : ∀ r ∈ w.response, r.content.length ≤ maxSafe) {tr : Transcript}
    {error : TransportError} (h : Failed x maxSafe w tr error) :
    Denied g error.code (view w.record.diagnostics) (x.codec.error error) := by
  have hmem : FrameReader.frame 4 (x.codec.error error) ∈ w.yielded := by
    rw [h.frames, Transcript.frames, h.last]
    simp
  have hsafe := safe_of_failed hissued h.told.kept (h.told.counted maxSafe hcontent)
  refine ⟨herrors error _ hmem h.diagnostics hsafe, ?_, ?_⟩
  · rw [hissued.limits.1]
    exact h.size
  · exact diagnosticsOk_failed hissued h.told.kept h.told.named

/-- A response of an upstream that the SDK can carry. -/
structure Carried (x : Exchange) (r : Upstream) : Prop where
  status : 200 ≤ r.status ∧ r.status ≤ 599
  bodyless : x.method = "HEAD" ∨ r.status ∈ [204, 205, 304] → r.content = []
  length : r.content.length ≤ maxSafe

structure Reported (c : Call) (tr : Transcript) (error : SdkError)
    (result : State × Bytes) : Prop where
  terminal : result.1.terminal = some (.error error)
  outcome : result.1.outcome = if tr.head.isNone then some (.error error) else none
  body : result.2 = tr.payloads.flatten

theorem reported_unheaded {fuel : ℕ} {tr : Transcript} (hopen : t.terminal = none)
    (hid : t.diag.requestId = g.call.requestId) (hattempt : t.diag.attempt = g.call.attempt)
    (hnone : tr.head = none) (hpayloads : tr.payloads = []) (h : Denied g code d json)
    (hrest : s.rest = FrameReader.frame 4 json) :
    Reported g.call tr (reported g.call code d) (g.start fuel t s) := by
  obtain ⟨houtcome, hterminal, hbody⟩ := start_denied hopen hid hattempt h hrest
  refine ⟨hterminal, ?_, ?_⟩
  · rw [houtcome, hnone]
    rfl
  · rw [hbody, hpayloads]
    rfl

/-- The payloads of a failed response are within what the SDK has asked for. -/
theorem bodyless_failed {tr : Transcript} {error : TransportError} {r : Upstream}
    {value : ResponseStream.ResponseMetadata} (hissued : Issued p g x)
    (h : Failed x maxSafe w tr error) (hr : w.response = some r) (hc : Carried x r)
    (hstatus : value.status = r.status) :
    bodyless g.call (viewMetadata value) = true → tr.payloads = [] := by
  intro hless
  have hnone : x.method = "HEAD" ∨ r.status ∈ [204, 205, 304] := by
    simpa [SdkExchange.bodyless, viewMetadata, hissued.head, hstatus] using hless
  cases hpayloads : tr.payloads with
  | nil => rfl
  | cons payload payloads =>
    exfalso
    have hmem : FrameReader.frame 2 payload ∈ (seen maxSafe w).sent := by
      rw [seen, h.frames, Transcript.frames, hpayloads]
      simp
    obtain ⟨r', hr', hne⟩ := h.told.frames.data payload hmem
    obtain rfl := Option.some.inj (hr'.symm.trans hr)
    exact hne (hc.bodyless hnone)

theorem reported_headed {tr : Transcript} {error : TransportError} {fuel : ℕ} {head : Bytes}
    (hissued : Issued p g x) (hread : ReadsBack x.codec g.parsers w.yielded)
    (hupstream : ∀ r ∈ w.response, Carried x r) (h : Failed x maxSafe w tr error)
    (hdenied : Denied g error.code (view w.record.diagnostics) (x.codec.error error))
    (hhead : tr.head = some head) (hopen : t.terminal = none) (hout : t.outcome = none)
    (hzero : t.responseBytes = 0) (hrest : s.rest = w.yielded.flatten)
    (hfuel : s.rest.length < fuel) :
    Reported g.call tr (reported g.call error.code (view w.record.diagnostics))
      (g.start fuel t s) := by
  have hmem : FrameReader.frame 1 head ∈ w.yielded := by
    rw [h.frames, Transcript.frames, hhead]
    exact List.mem_append_left _ List.mem_cons_self
  obtain ⟨r, value, hr, hvalue, rfl, hanswered⟩ :=
    h.told.frames.head head (List.mem_append_left _ hmem)
  have hc := hupstream r hr
  have hsafe : Safe value.diagnostics :=
    safe_of_kept hissued hvalue.kept (by rw [hvalue.bytes]; exact Nat.zero_le _)
  have hrevision : ∀ n ∈ value.cookieRevision, n ≤ maxSafe := by
    rw [← hvalue.revision]
    exact hsafe.cookieRevision
  have hframes : s.rest = FrameReader.frame 1 (x.codec.metadata value) ++
      (tr.payloads.flatMap (FrameReader.frame 2) ++ FrameReader.frame 4 (x.codec.error error)) := by
    rw [hrest, h.frames]
    simp [Transcript.frames, hhead, h.last, List.flatMap]
  obtain ⟨s', hs', htail⟩ := read_frame g.limits g.parsers 1 hframes (by decide)
    (by rw [FrameLimits.limit, if_neg (by decide), hissued.limits.1]; exact hvalue.size)
  have hframe : g.parsers.parse 1 (x.codec.metadata value) =
      .metadata (.accepted (viewMetadata value)) := by
    simp [SdkResponse.Parsers.parse, hread.metadata value hmem hsafe hrevision]
  rw [hframe] at hs'
  have hlong : tr.payloads.length < fuel := by
    have := length_frames tr.payloads
    rw [hframes] at hfuel
    simp only [List.length_append] at hfuel
    omega
  obtain ⟨houtcome, hterminal, hbody⟩ :=
    pump_denied (t := resolved t (viewMetadata value)) [] hlong htail
      (by rw [hissued.limits.2]; exact h.cut)
      (by rw [resolved, hzero, Nat.zero_add, ← hissued.maxResponseBytes]; exact h.total)
      (bodyless_failed hissued h hr hc hvalue.status) hdenied hanswered.delivery
      (hvalue.kept.sameRequest.trans hissued.requestId.1)
      (hvalue.kept.sameAttempt.trans hissued.attempt.1) hopen
  rw [start_metadata hopen hs' (metadataOk_view hissued hvalue hc.status)]
  refine ⟨hterminal, ?_, hbody⟩
  rw [hhead]
  exact houtcome.trans hout

/-- Whatever makes a request fail, the SDK reports the error of the service if it can carry the
response: it rejects the call when no head has been sent, and otherwise ends the body with it
behind the bytes that were sent. -/
theorem failure_reported (hcodec : x.codec.Bounded) {es : List Event}
    (hrun : (machine x).run (.initial x) es = some w) (hended : w.ended = true)
    {error : TransportError} (herror : w.record.error = some error) (hissued : Issued p g x)
    (hread : ReadsBack x.codec g.parsers w.yielded)
    (herrors : ReadsErrors x.codec g.parsers w.yielded)
    (hupstream : ∀ r ∈ w.response, Carried x r) (hclock : w.clock / 1000000 ≤ maxSafe)
    (hrevised : ∀ revision, .cookies revision ∈ es ∨ .absorbed (some revision) ∈ es →
      revision.toNat ≤ maxSafe)
    (queueMs : ℕ) (m : Meter) {chunks : List Bytes} (hchunks : chunks.flatten = w.yielded.flatten) :
    ∃ (tr : Transcript) (result : State × Bytes), w.yielded = tr.frames ∧
      g.executeStream queueMs m serviceHead chunks = some result ∧
      Reported g.call tr (reported g.call error.code (view w.record.diagnostics)) result := by
  obtain ⟨tr, h⟩ := failed_of_ended hcodec hrun hended hclock hrevised herror
  have hdenied := denied_of_failed hissued herrors (fun r hr => (hupstream r hr).length) h
  have hrest : (⟨[], chunks⟩ : Source).rest = w.yielded.flatten := by
    simp [Source.rest, hchunks]
  refine ⟨tr, _, h.frames, executeStream_streams hissued.requestId.2 (by decide), ?_⟩
  cases hhead : tr.head with
  | none =>
    have hid : (opened g.call queueMs).diag.requestId = g.call.requestId :=
      if_pos hissued.requestId.2
    refine reported_unheaded rfl hid rfl hhead (h.headed hhead) hdenied ?_
    rw [hrest, h.frames]
    simp [Transcript.frames, hhead, h.headed hhead, h.last]
  | some head =>
    refine reported_headed hissued hread hupstream h hdenied hhead rfl rfl rfl hrest ?_
    rw [hrest, ← hchunks]
    omega

end Service

open ResponseStream (Codec Event machine)

def lateDiagnostics : TransportErrors.Diagnostics :=
  { plainFinal none with phase := .body }

def lateError : TransportError := (TransportError.fromCode .timeout).withDiagnostics lateDiagnostics

def lateBytes : Bytes :=
  ("\x7b\"code\":\"TIMEOUT\",\"message\":\"" ++ ErrorCode.timeout.message ++
    "\",\"diagnostics\":" ++ plainJson "body" "0" "2" none ++ "\x7d").toUTF8.data.toList

def lateCodec : Codec :=
  { plainCodec 200 none with error := fun e => if e = lateError then lateBytes else [] }

def lateExchange : ResponseStream.Exchange := { plainExchange 200 none with codec := lateCodec }

def lateReading : Reading :=
  { ServiceToSdk.plainReading 200 none with
    parsers := { (ServiceToSdk.plainReading 200 none).parsers with
      error := fun json =>
        if json = lateBytes then .accepted ⟨.timeout, some (view lateDiagnostics)⟩
        else .malformed } }

def lateFrames : List Bytes :=
  [FrameReader.frame 1 (plainHeadBytes 200 none), FrameReader.frame 2 [104, 105],
    FrameReader.frame 4 lateBytes]

def lateRun : List Event :=
  [.admitted, .locate, .dispatched, .uploadDone, .respond ⟨200, [], [.chunk [104, 105]]⟩,
    .absorbed none, .handOver, .receive, .pull, .handOver, .receive, .stop .deadline, .report,
    .leave, .receive]

theorem late_bounded (h : lateBytes.length ≤ maxMetadataBytes)
    (hfinal : (plainFinalBytes none).length ≤ maxMetadataBytes) : lateCodec.Bounded := by
  constructor
  · exact (plainCodec_bounded 200 hfinal).diagnostics
  · intro e _ _
    show (if e = lateError then lateBytes else []).length ≤ maxMetadataBytes
    split
    · exact h
    · exact Nat.zero_le _

theorem late_issued : Issued plainProfiles lateReading lateExchange :=
  let h := plain_issued 200 none
  ⟨h.limits, h.requestId, h.attempt, h.context, h.head, h.maxResponseBytes, h.offered, h.profile⟩

theorem late_reads (hhead : plainHeadBytes 200 none ≠ []) :
    ReadsBack lateCodec lateReading.parsers lateFrames := by
  constructor
  · intro value hmem _ _
    by_cases hvalue : value = plainHead 200 none
    · subst hvalue
      simp [lateCodec, plainCodec, lateReading, ServiceToSdk.plainReading]
    · exfalso
      simp only [lateCodec, plainCodec, hvalue, if_false, lateFrames, List.mem_cons,
        List.not_mem_nil, or_false] at hmem
      rcases hmem with heq | heq | heq
      · exact frame_ne_empty hhead heq
      · exact absurd (frame_inj heq).1 (by decide)
      · exact absurd (frame_inj heq).1 (by decide)
  · intro d hmem _
    simp only [lateFrames, List.mem_cons, List.not_mem_nil, or_false] at hmem
    rcases hmem with heq | heq | heq
    all_goals exact absurd (frame_inj heq).1 (by decide)

theorem late_readsErrors (hne : lateBytes ≠ []) :
    ReadsErrors lateCodec lateReading.parsers lateFrames := by
  intro e d hmem hd _
  by_cases he : e = lateError
  · subst he
    cases hd
    simp [lateCodec, lateReading, lateError, TransportError.withDiagnostics,
      TransportError.fromCode, TransportError.new]
  · exfalso
    simp only [lateCodec, he, if_false, lateFrames, List.mem_cons, List.not_mem_nil,
      or_false] at hmem
    rcases hmem with heq | heq | heq
    · exact absurd (frame_inj heq).1 (by decide)
    · exact absurd (frame_inj heq).1 (by decide)
    · exact frame_ne_empty hne heq

def lateEnds : Bool :=
  ((machine lateExchange).run (.initial lateExchange) lateRun).any fun w =>
    w.ended && w.yielded == lateFrames && w.clock == 0 && w.record.error == some lateError &&
      w.response.any fun r => r.status == 200 && r.content == [104, 105]

theorem failure_reported_late :
    ∃ w, (machine lateExchange).run (.initial lateExchange) lateRun = some w ∧
      w.yielded = lateFrames ∧
      ∃ (tr : Transcript) (result : State × Bytes), w.yielded = tr.frames ∧
        lateReading.executeStream 0 ⟨0, 0⟩ serviceHead
          [w.yielded.flatten.take 7, [], w.yielded.flatten.drop 7] = some result ∧
        Reported lateReading.call tr
          (reported lateReading.call .timeout (view w.record.diagnostics)) result := by
  have hends : lateEnds = true := by decide +kernel
  obtain ⟨w, hw, hall⟩ := (Option.any_eq_true _ _).mp hends
  simp only [Bool.and_eq_true, beq_iff_eq] at hall
  obtain ⟨⟨⟨⟨hended, hyielded⟩, hclock⟩, herror⟩, hany⟩ := hall
  obtain ⟨r, hresponse, hr⟩ := (Option.any_eq_true _ _).mp hany
  simp only [Bool.and_eq_true, beq_iff_eq] at hr
  have hcarried : ∀ r ∈ w.response, Carried lateExchange r := by
    intro r' hr'
    obtain rfl := Option.some.inj (hresponse.symm.trans hr')
    refine ⟨by rw [hr.1]; decide, ?_, by rw [hr.2]; decide⟩
    rw [hr.1]
    rintro (hhead | hbodyless)
    · exact absurd hhead (by decide)
    · exact absurd hbodyless (by decide)
  have hlate : lateBytes.length ≤ maxMetadataBytes ∧ lateBytes ≠ [] := by decide +kernel
  have hplain : (plainFinalBytes none).length ≤ maxMetadataBytes ∧
      plainHeadBytes 200 none ≠ [] := by
    decide +kernel
  refine ⟨w, hw, hyielded, ?_⟩
  exact failure_reported (late_bounded hlate.1 hplain.1) hw hended herror late_issued
    (by rw [hyielded]; exact late_reads hplain.2) (by rw [hyielded]; exact late_readsErrors hlate.2)
    hcarried (by rw [hclock]; decide) (fun revision hmem => by simp [lateRun] at hmem) 0 ⟨0, 0⟩
    (by simp)

end FailureReports
