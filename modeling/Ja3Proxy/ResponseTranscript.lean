import Ja3Proxy.ResponseStream

/-! What a consumer reads of a response stream: at most one head, the payloads, one last frame
with the final status. The invariant relates the frames that have left the worker to the body
items it has pulled. -/
namespace ResponseTranscript

open FrameReader hiding pull
open RequestRecord ResponseHeaders ResponseStream TransitionRuns TransportErrors
open WordArithmetic (saturatingAdd saturatingAdd_lt wordMax)

theorem chunks_flatten {size : ℕ} (hsize : 0 < size) {fuel : ℕ} {data : Bytes}
    (hfuel : data.length ≤ fuel) : (chunks size fuel data).flatten = data := by
  induction fuel generalizing data with
  | zero =>
    have hnil : data = [] := List.length_eq_zero_iff.mp (Nat.le_zero.mp hfuel)
    simp [chunks, hnil]
  | succ fuel ih =>
    by_cases hempty : data = []
    · simp [chunks, hempty]
    · have hpos : 0 < data.length := List.length_pos_iff.mpr hempty
      have hrest : (data.drop size).length ≤ fuel := by
        rw [List.length_drop]
        omega
      simp [chunks, hempty, ih hrest]

theorem chunks_sizes {size : ℕ} (hsize : 0 < size) {fuel : ℕ} {data : Bytes} :
    ∀ piece ∈ chunks size fuel data, 1 ≤ piece.length ∧ piece.length ≤ size := by
  induction fuel generalizing data with
  | zero => simp [chunks]
  | succ fuel ih =>
    by_cases hempty : data = []
    · simp [chunks, hempty]
    · have hpos : 0 < data.length := List.length_pos_iff.mpr hempty
      intro piece hpiece
      simp only [chunks, List.isEmpty_iff, hempty, if_false, List.mem_cons] at hpiece
      rcases hpiece with rfl | hlater
      · rw [List.length_take]
        omega
      · exact ih piece hlater

structure Kept (x : Exchange) (limit : ℕ) (d : Diagnostics) : Prop extends Small d where
  sameRequest : d.requestId = x.requestId
  sameAttempt : d.attempt = x.attempt.toNat
  sameTrace : d.traceId = x.traceId ∧ d.spanId = x.spanId
  sameContext : d.contextId = x.owner.contextId
  requested : d.requestBytes ≤ x.requestLimit
  times : d.queueMs ≤ limit ∧ d.totalMs ≤ limit
  headersTime : ∀ n ∈ d.headersMs, n ≤ limit
  bodyTime : ∀ n ∈ d.bodyMs, n ≤ limit
  revised : ∀ n ∈ d.cookieRevision, n ≤ limit

structure Answered (x : Exchange) (d : Diagnostics) : Prop where
  profile : d.tlsProfile = x.owner.profile.name
  delivery : d.delivery = .responseStarted

variable {x : Exchange} {w v : World} {d : Diagnostics} {limit now : ℕ}

theorem elapsedMs_lt (start now : ℕ) : elapsedMs start now < 2 ^ 64 :=
  Nat.mod_lt _ (by decide)

theorem elapsedMs_le (start : ℕ) (hnow : now / 1000000 ≤ limit) : elapsedMs start now ≤ limit := by
  have hmod : elapsedMs start now ≤ (now - start) / 1000000 := Nat.mod_le _ _
  have hsub : (now - start) / 1000000 ≤ now / 1000000 := Nat.div_le_div_right (Nat.sub_le _ _)
  omega

theorem Kept.timed (r : Record) (hnow : now / 1000000 ≤ limit) (h : Kept x limit d) :
    Kept x limit (r.timed now d) := by
  obtain ⟨hattempt, hqueue, -, hrequest, hresponse⟩ := h.numbers
  simp only [Record.timed]
  split
  · exact { h with
      numbers := ⟨hattempt, elapsedMs_lt _ _, elapsedMs_lt _ _, hrequest, hresponse⟩
      times := ⟨elapsedMs_le _ hnow, elapsedMs_le _ hnow⟩ }
  · exact { h with
      numbers := ⟨hattempt, hqueue, elapsedMs_lt _ _, hrequest, hresponse⟩
      times := ⟨h.times.1, elapsedMs_le _ hnow⟩ }

theorem Kept.locate (owner : Owner) (h : Kept x limit d) : Kept x limit (locate owner d) := by
  cases owner with
  | connection profile => exact { h with }
  | context contextId profile => exact { h with tlsProfile := profile.short }

theorem Kept.markBody (started : ℕ) (hnow : now / 1000000 ≤ limit) (h : Kept x limit d) :
    Kept x limit (markBody started now d) := by
  unfold RequestRecord.markBody
  split
  · have hlt := elapsedMs_lt started now
    have hle := elapsedMs_le started hnow
    refine { h with bodyMs := ?_, bodyTime := ?_ }
    all_goals
      rintro n ⟨⟩
      omega
  · exact h

theorem Kept.leaveQueue (queued : ℕ) (hnow : now / 1000000 ≤ limit) (h : Kept x limit d) :
    Kept x limit (leaveQueue queued now d) := by
  obtain ⟨hattempt, -, htotal, hrequest, hresponse⟩ := h.numbers
  exact { h with
    numbers := ⟨hattempt, elapsedMs_lt _ _, htotal, hrequest, hresponse⟩
    times := ⟨elapsedMs_le _ hnow, h.times.2⟩ }

theorem Kept.setCookies {revision : UInt64} (hle : revision.toNat ≤ limit) (h : Kept x limit d) :
    Kept x limit (setCookies revision d) := by
  refine { h with cookieRevision := ?_, revised := ?_ }
  · rintro n ⟨⟩
    exact revision.toNat_lt
  · rintro n ⟨⟩
    exact hle

theorem Kept.countRequest {count : UInt64} (hle : count.toNat ≤ x.requestLimit)
    (h : Kept x limit d) : Kept x limit (countRequest count d) := by
  obtain ⟨hattempt, hqueue, htotal, -, hresponse⟩ := h.numbers
  exact { h with
    numbers := ⟨hattempt, hqueue, htotal, count.toNat_lt, hresponse⟩
    requested := hle }

theorem Kept.markResponse (started : ℕ) (hnow : now / 1000000 ≤ limit) (h : Kept x limit d) :
    Kept x limit (markResponse started now d) := by
  refine { h with headersMs := ?_, headersTime := ?_ }
  · rintro n ⟨⟩
    exact elapsedMs_lt _ _
  · rintro n ⟨⟩
    exact elapsedMs_le _ hnow

theorem Kept.startBody {revision : Option UInt64} (hle : ∀ n ∈ revision, n.toNat ≤ limit)
    (h : Kept x limit d) : Kept x limit (startBody revision d) := by
  refine { h with cookieRevision := ?_, revised := ?_ }
  all_goals
    intro n hn
    obtain ⟨revision, hrevision, rfl⟩ := Option.map_eq_some_iff.mp hn
  · exact revision.toNat_lt
  · exact hle revision hrevision

theorem Kept.countResponse {count : ℕ} (hcount : count < 2 ^ 64) (h : Kept x limit d) :
    Kept x limit (countResponse count d) := by
  obtain ⟨hattempt, hqueue, htotal, hrequest, -⟩ := h.numbers
  exact { h with numbers := ⟨hattempt, hqueue, htotal, hrequest, hcount⟩ }

theorem locate_profile (h : d.tlsProfile = x.diagnostics.tlsProfile) :
    (locate x.owner d).tlsProfile = x.owner.profile.name := by
  cases howner : x.owner with
  | connection profile => simpa [locate, Owner.profile, Exchange.diagnostics, howner] using h
  | context contextId profile => simp [locate, Owner.profile]

theorem kept_diagnostics (hclock : x.clock / 1000000 ≤ limit) : Kept x limit x.diagnostics := by
  have htrace := x.traceId_hex
  have hspan := x.spanId_hex
  simp only [AsciiText.hexId, Bool.and_eq_true, beq_iff_eq] at htrace hspan
  have hmeasured : x.measured / 1000000 ≤ limit :=
    Nat.le_trans (Nat.div_le_div_right x.measured_le) hclock
  refine ⟨⟨x.requestId_short, Nat.le_of_eq htrace.1.1, Nat.le_of_eq hspan.1.1, ?_,
    x.contextId_short,
    ⟨x.attempt.toNat_lt, Nat.two_pow_pos 64, elapsedMs_lt _ _, Nat.two_pow_pos 64,
      Nat.two_pow_pos 64⟩, nofun, nofun, nofun⟩,
    rfl, rfl, ⟨rfl, rfl⟩, rfl, Nat.zero_le _, ⟨Nat.zero_le _, elapsedMs_le _ hmeasured⟩,
    nofun, nofun, nofun⟩
  cases howner : x.owner with
  | connection profile => simpa [Exchange.diagnostics, howner] using profile.short
  | context contextId profile => simp [Exchange.diagnostics, howner]

structure Retimed (d d' : Diagnostics) : Prop where
  profile : d'.tlsProfile = d.tlsProfile
  delivery : d'.delivery = d.delivery
  bytes : d'.responseBytes = d.responseBytes
  revision : d'.cookieRevision = d.cookieRevision

theorem Retimed.trans {d d' d'' : Diagnostics} (h : Retimed d d') (k : Retimed d' d'') :
    Retimed d d'' :=
  ⟨k.profile.trans h.profile, k.delivery.trans h.delivery, k.bytes.trans h.bytes,
    k.revision.trans h.revision⟩

theorem retimed_markBody (started now : ℕ) (d : Diagnostics) :
    Retimed d (markBody started now d) := by
  unfold markBody
  split <;> exact ⟨rfl, rfl, rfl, rfl⟩

theorem retimed_timed (r : Record) (now : ℕ) (d : Diagnostics) : Retimed d (r.timed now d) := by
  simp only [Record.timed]
  split <;> exact ⟨rfl, rfl, rfl, rfl⟩

theorem Answered.retimed {d' : Diagnostics} (h : Answered x d) (k : Retimed d d') :
    Answered x d' :=
  ⟨k.profile.trans h.profile, k.delivery.trans h.delivery⟩

structure Seen where
  limit : ℕ
  record : Record
  uploaded : Bool
  response : Option Upstream
  sent : List Bytes

def seen (limit : ℕ) (w : World) : Seen :=
  ⟨limit, w.record, w.uploaded, w.response, w.yielded ++ w.channel⟩

structure Unfinished (x : Exchange) (s : Seen) : Prop where
  finished : s.record.finished = none
  kept : Kept x s.limit s.record.diagnostics

structure HeadOf (x : Exchange) (limit : ℕ) (r : Upstream) (value : ResponseMetadata) : Prop where
  requestId : value.requestId = x.requestId
  status : value.status = r.status
  headers : responseHeaders r.headers (bodyless x.method r.status) = .ok value.headers
  kept : Kept x limit value.diagnostics
  answered : Answered x value.diagnostics
  bytes : value.diagnostics.responseBytes = 0
  revision : value.diagnostics.cookieRevision = value.cookieRevision
  size : (x.codec.metadata value).length ≤ maxMetadataBytes

def Cut (payloads : List Bytes) : Prop :=
  ∀ payload ∈ payloads, 1 ≤ payload.length ∧ payload.length ≤ maxDataBytes

structure Begun (x : Exchange) (sent : List Bytes) (head : Option Bytes)
    (payloads : List Bytes) : Prop where
  sent : sent = head.toList.map (frame 1) ++ payloads.map (frame 2)
  headed : head = none → payloads = []
  cut : Cut payloads
  total : payloads.flatten.length ≤ x.maxResponseBytes

structure Headed (x : Exchange) (s : Seen) (r : Upstream) (value : ResponseMetadata) : Prop where
  uploaded : s.uploaded = true
  response : s.response = some r
  kept : Kept x s.limit s.record.diagnostics
  answered : Answered x s.record.diagnostics
  revision : s.record.diagnostics.cookieRevision = value.cookieRevision
  head : HeadOf x s.limit r value

structure Forwarded (x : Exchange) (s : Seen) (r : Upstream) (value : ResponseMetadata)
    (payloads pending : List Bytes) (rest : List BodyItem) (count : ℕ) : Prop extends
    Headed x s r value where
  sent : s.sent = frame 1 (x.codec.metadata value) :: payloads.map (frame 2)
  cut : Cut (payloads ++ pending)
  body : ∃ before, r.body = before ++ rest ∧ (∀ item ∈ before, item.failed = false) ∧
    (payloads ++ pending).flatten = before.flatMap BodyItem.data
  total : count ≤ x.maxResponseBytes
  length : count = (payloads ++ pending).flatten.length
  counted : s.record.diagnostics.responseBytes = count

/-- The last frame, where its JSON is small enough. -/
def lastFrame (c : Codec) (status : RequestStatus) : Bytes :=
  match status.error with
  | some error => frame 4 (c.error error)
  | none => frame 3 (c.diagnostics status.diagnostics)

def Settled (x : Exchange) (s : Seen) : Prop :=
  s.record.finished ≠ none ∧
    ((∃ error head payloads, s.record.error = some error ∧
        error.diagnostics = some s.record.diagnostics ∧ Begun x s.sent head payloads) ∨
      (s.record.error = none ∧ s.record.diagnostics.phase = .complete ∧
        ∃ r value payloads count, Forwarded x s r value payloads [] [] count))

structure Waiting (x : Exchange) (s : Seen) (profile : String) : Prop extends Unfinished x s where
  sent : s.sent = []
  bytes : s.record.diagnostics.responseBytes = 0
  profile : s.record.diagnostics.tlsProfile = profile

def StageOk (x : Exchange) (s : Seen) : Stage → Prop
  | .queued | .preparing => Waiting x s x.diagnostics.tlsProfile
  | .located | .working => Waiting x s x.owner.profile.name
  | .uploading => Waiting x s x.owner.profile.name ∧
    s.record.diagnostics.delivery = .responseStarted
  | .opening =>
    Waiting x s x.owner.profile.name ∧ s.record.diagnostics.delivery = .responseStarted ∧
      s.uploaded = true
  | .sendingHead head =>
    s.record.finished = none ∧ ∃ r value, Headed x s r value ∧ s.sent = [] ∧
      s.record.diagnostics.responseBytes = 0 ∧ head = frame 1 (x.codec.metadata value)
  | .pulling rest count =>
    s.record.finished = none ∧ ∃ r value payloads, Forwarded x s r value payloads [] rest count
  | .sending frames rest count =>
    s.record.finished = none ∧ ∃ r value payloads pending, frames = pending.map (frame 2) ∧
      Forwarded x s r value payloads pending rest count
  | .stopped none =>
    s.record.finished = none ∧ ∃ r value payloads count, Forwarded x s r value payloads [] [] count
  | .stopped (some error) =>
    Unfinished x s ∧ error.message.utf8ByteSize ≤ 256 ∧
      ∃ head payloads, Begun x s.sent head payloads
  | .reported | .gone => False

structure Invariant (x : Exchange) (limit : ℕ) (w : World) : Prop where
  sender : w.stage = .gone ∨ w.sender = true ∧ w.ended = false
  running : w.stage ≠ .reported → w.stage ≠ .gone → StageOk x (seen limit w) w.stage
  reported : w.stage = .reported ∨ w.stage = .gone → w.ended = false →
    w.terminal = some (lastFrame x.codec w.record.statusLocked) ∧ Settled x (seen limit w)
  ended : w.ended = true →
    ∃ sent, w.yielded = sent ++ [lastFrame x.codec w.record.statusLocked] ∧
      Settled x { seen limit w with sent := sent }

variable {s : Seen}

theorem begun_nil : Begun x [] none [] :=
  ⟨rfl, fun _ => rfl, fun _ h => (List.not_mem_nil h).elim, Nat.zero_le _⟩

theorem Forwarded.begun {r : Upstream} {value : ResponseMetadata} {payloads pending : List Bytes}
    {rest : List BodyItem} {count : ℕ} (h : Forwarded x s r value payloads pending rest count) :
    Begun x s.sent (some (x.codec.metadata value)) payloads := by
  refine ⟨h.sent, nofun, fun payload hp => h.cut payload (List.mem_append_left _ hp), ?_⟩
  have htotal := h.total
  rw [h.length, List.flatten_append, List.length_append] at htotal
  omega

/-- Wherever the worker is cut off, the frames sent are the beginning of a response. -/
theorem StageOk.begun {stage : Stage} (h : StageOk x s stage) :
    Unfinished x s ∧ ∃ head payloads, Begun x s.sent head payloads := by
  have waiting : ∀ {profile}, Waiting x s profile →
      Unfinished x s ∧ ∃ head payloads, Begun x s.sent head payloads := by
    intro profile hw
    refine ⟨hw.toUnfinished, none, [], ?_⟩
    rw [hw.sent]
    exact begun_nil
  have forwarded : ∀ {r value payloads pending rest count}, s.record.finished = none →
      Forwarded x s r value payloads pending rest count →
      Unfinished x s ∧ ∃ head payloads, Begun x s.sent head payloads :=
    fun hopen hf => ⟨⟨hopen, hf.kept⟩, _, _, hf.begun⟩
  cases stage with
  | queued => exact waiting h
  | preparing => exact waiting h
  | located => exact waiting h
  | working => exact waiting h
  | uploading => exact waiting h.1
  | opening => exact waiting h.1
  | sendingHead head =>
    obtain ⟨hopen, r, value, hheaded, hsent, -, -⟩ := h
    refine ⟨⟨hopen, hheaded.kept⟩, none, [], ?_⟩
    rw [hsent]
    exact begun_nil
  | pulling rest count =>
    obtain ⟨hopen, r, value, payloads, hf⟩ := h
    exact forwarded hopen hf
  | sending frames rest count =>
    obtain ⟨hopen, r, value, payloads, pending, -, hf⟩ := h
    exact forwarded hopen hf
  | stopped error =>
    cases error with
    | none =>
      obtain ⟨hopen, r, value, payloads, count, hf⟩ := h
      exact forwarded hopen hf
    | some error => exact ⟨h.1, h.2.2⟩
  | reported => exact h.elim
  | gone => exact h.elim

theorem Waiting.update {profile : String} (h : Waiting x s profile)
    (f : Diagnostics → Diagnostics) (hkept : Kept x s.limit (f s.record.diagnostics))
    (hbytes : (f s.record.diagnostics).responseBytes = 0) :
    Waiting x { s with record := s.record.update f } (f s.record.diagnostics).tlsProfile := by
  obtain ⟨hd, hopen⟩ := update_open h.finished f
  exact ⟨⟨hopen, by rwa [hd]⟩, h.sent, by rwa [hd], by rw [hd]⟩

/-- An update that leaves the profile alone. -/
theorem Waiting.update_same {profile : String} (h : Waiting x s profile)
    (f : Diagnostics → Diagnostics) (hkept : Kept x s.limit (f s.record.diagnostics))
    (hbytes : (f s.record.diagnostics).responseBytes = s.record.diagnostics.responseBytes)
    (hprofile : (f s.record.diagnostics).tlsProfile = s.record.diagnostics.tlsProfile) :
    Waiting x { s with record := s.record.update f } profile := by
  have hw := h.update f hkept (hbytes.trans h.bytes)
  rwa [hprofile, h.profile] at hw

theorem update_delivery {f : Diagnostics → Diagnostics} (hopen : s.record.finished = none)
    {delivery : Delivery} (h : (f s.record.diagnostics).delivery = delivery) :
    (s.record.update f).diagnostics.delivery = delivery := by
  rwa [(update_open hopen f).1]

theorem fromCode_short (code : ErrorCode) :
    (TransportError.fromCode code).message.utf8ByteSize ≤ 256 :=
  (Fault.fromCode code).fixed

/-- `response_headers` fails with a fixed text. -/
theorem collect_error {names : List (List Char)} {bodyless : Bool} {size : ℕ}
    {result : List (String × String)} {fields : List HeaderField} {e : TransportError}
    (h : collect names bodyless size result fields = .error e) :
    e.message.utf8ByteSize ≤ 256 := by
  induction fields generalizing size result with
  | nil => cases h
  | cons field fields ih =>
    simp only [collect] at h
    split at h
    · exact ih h
    · split at h
      · split at h
        · exact ih h
        · cases h
          exact fromCode_short _
      · split at h
        · cases h
          exact fromCode_short _
        · exact ih h

theorem jsonFrame_ok {kind : UInt8} {json bytes : Bytes} (h : jsonFrame kind json = .ok bytes) :
    json.length ≤ maxMetadataBytes ∧ bytes = frame kind json := by
  unfold jsonFrame at h
  split at h
  · cases h
  · next hlen =>
    cases h
    exact ⟨Nat.le_of_not_lt hlen, rfl⟩

/-- The head is made from the record as it stands, or the worker stops. -/
theorem stageOk_openResponse {r : Upstream} {revision : Option ℕ}
    (hnow : w.clock / 1000000 ≤ limit)
    (hw : Waiting x (seen limit w) x.owner.profile.name)
    (hdelivery : w.record.diagnostics.delivery = .responseStarted)
    (huploaded : w.uploaded = true) (hresponse : w.response = some r)
    (hrevision : w.record.diagnostics.cookieRevision = revision) :
    StageOk x (seen limit (openResponse x w r revision)) (openResponse x w r revision).stage := by
  have hsent : (seen limit w).sent = [] := hw.sent
  have stopped : ∀ e : TransportError, e.message.utf8ByteSize ≤ 256 →
      StageOk x (seen limit (w.goto (.stopped (some e)))) (.stopped (some e)) := by
    intro e he
    refine ⟨hw.toUnfinished, he, none, [], ?_⟩
    rw [show (seen limit (w.goto (.stopped (some e)))).sent = [] from hsent]
    exact begun_nil
  unfold openResponse metadataOf
  cases hheaders : responseHeaders r.headers (bodyless x.method r.status) with
  | error e => exact stopped e (collect_error hheaders)
  | ok headers =>
    simp only [Except.bind]
    cases hframe : jsonFrame 1 (x.codec.metadata ⟨x.requestId, r.status, headers,
        w.record.diagnosticsAt w.clock, revision⟩) with
    | error e =>
      unfold jsonFrame at hframe
      split at hframe
      · cases hframe
        exact stopped _ (fromCode_short _)
      · cases hframe
    | ok head =>
      obtain ⟨hsize, rfl⟩ := jsonFrame_ok hframe
      have hopen : w.record.finished = none := hw.finished
      have hdiag : w.record.diagnosticsAt w.clock =
          w.record.timed w.clock w.record.diagnostics := by
        simp [Record.diagnosticsAt, hopen]
      refine ⟨hopen, r, ⟨x.requestId, r.status, headers,
        w.record.diagnosticsAt w.clock, revision⟩, ⟨huploaded, hresponse, hw.kept,
          ⟨hw.profile, hdelivery⟩, hrevision, ?_⟩,
        hsent, hw.bytes, rfl⟩
      have hretimed := retimed_timed w.record w.clock w.record.diagnostics
      rw [← hdiag] at hretimed
      refine ⟨rfl, rfl, hheaders, ?_, Answered.retimed ⟨hw.profile, hdelivery⟩ hretimed,
        hretimed.bytes.trans hw.bytes, hretimed.revision.trans hrevision, hsize⟩
      rw [hdiag]
      exact hw.kept.timed _ hnow

section body

variable {r : Upstream} {value : ResponseMetadata} {payloads pending : List Bytes}
  {rest : List BodyItem} {count : ℕ}

/-- The count of a body within the limit does not saturate. -/
theorem saturatingAdd_eq {length : ℕ} (hmax : saturatingAdd count length ≤ x.maxResponseBytes) :
    saturatingAdd count length = count + length := by
  have hbounded := x.maxResponseBytes_le
  unfold saturatingAdd wordMax at hmax ⊢
  omega

theorem Headed.counted (h : Headed x s r value) (hopen : s.record.finished = none) {n : ℕ}
    (hn : n < 2 ^ 64) :
    Headed x { s with record := s.record.update (countResponse n) } r value ∧
      (s.record.update (countResponse n)).diagnostics.responseBytes = n := by
  have hd := (update_open hopen (countResponse n)).1
  refine ⟨⟨h.uploaded, h.response, ?_, ?_, ?_, h.head⟩, by rw [hd]; rfl⟩
  · rw [hd]
    exact h.kept.countResponse hn
  · rw [hd]
    exact ⟨h.answered.profile, h.answered.delivery⟩
  · rw [hd]
    exact h.revision

theorem stageOk_sendRest (hopen : s.record.finished = none)
    (h : Forwarded x s r value payloads pending rest count) :
    StageOk x s (sendRest (pending.map (frame 2)) rest count) := by
  cases pending with
  | nil => exact ⟨hopen, r, value, payloads, h⟩
  | cons payload pending => exact ⟨hopen, r, value, payloads, payload :: pending, rfl, h⟩

/-- The next item is counted before it is sent. -/
theorem stageOk_pull (hopen : w.record.finished = none)
    (h : Forwarded x (seen limit w) r value payloads [] rest count) :
    StageOk x (seen limit (pull x w rest count)) (pull x w rest count).stage := by
  have hbegun := h.begun
  cases rest with
  | nil => exact ⟨hopen, r, value, payloads, count, h⟩
  | cons item rest =>
    cases item with
    | failure fault => exact ⟨⟨hopen, h.kept⟩, fault.fixed, _, _, hbegun⟩
    | chunk data =>
      obtain ⟨hheaded, hcounted⟩ := h.toHeaded.counted hopen (saturatingAdd_lt count data.length)
      have hopen' : (w.record.update
          (countResponse (saturatingAdd count data.length))).finished = none :=
        (update_open hopen _).2
      simp only [pull]
      split
      · exact ⟨⟨hopen', hheaded.kept⟩, fromCode_short _, _, _, hbegun⟩
      · next hlimit =>
        have htotal := Nat.le_of_not_lt hlimit
        have hsum := saturatingAdd_eq htotal
        have hflat : (chunks maxDataBytes data.length data).flatten = data :=
          chunks_flatten (by decide) (Nat.le_refl _)
        apply stageOk_sendRest (r := r) hopen'
        refine ⟨hheaded, h.sent, ?_, ?_, htotal, ?_, hcounted⟩
        · intro payload hp
          rcases List.mem_append.mp hp with hold | hnew
          · exact h.cut payload (List.mem_append_left _ hold)
          · exact chunks_sizes (by decide) payload hnew
        · obtain ⟨before, hbody, hclean, hdata⟩ := h.body
          refine ⟨before ++ [.chunk data], by rw [hbody, List.append_assoc]; rfl, ?_, ?_⟩
          · intro item hitem
            rcases List.mem_append.mp hitem with hold | hlast
            · exact hclean item hold
            · rw [List.mem_singleton.mp hlast]
              rfl
          · rw [List.append_nil] at hdata
            rw [List.flatten_append, hdata, hflat, List.flatMap_append]
            simp [BodyItem.data]
        · rw [hsum, h.length, List.append_nil, List.flatten_append, List.length_append, hflat]

/-- The head enters the empty channel. -/
theorem stageOk_handOver_head {head : Bytes} (h : StageOk x (seen limit w) (.sendingHead head))
    (hresponse : w.response = some r) (hreceiving : w.receiving = true)
    (hv : handOver w head (.pulling r.body 0) = some v) : StageOk x (seen limit v) v.stage := by
  obtain ⟨hopen, r', value, hheaded, hsent, hzero, rfl⟩ := h
  have hsame : r' = r := Option.some.inj (hheaded.response.symm.trans hresponse)
  subst hsame
  simp only [handOver, hreceiving, if_true] at hv
  split at hv
  · have hempty : w.yielded = [] := (List.append_eq_nil_iff.mp hsent).1
    cases hv
    refine ⟨hopen, r', value, [], ⟨⟨hheaded.uploaded, hheaded.response, hheaded.kept,
      hheaded.answered, hheaded.revision, hheaded.head⟩, ?_, ?_, ?_, Nat.zero_le _, rfl, hzero⟩⟩
    · show w.yielded ++ [_] = _
      rw [hempty]
      rfl
    · exact fun _ hp => (List.not_mem_nil hp).elim
    · exact ⟨[], rfl, fun _ hp => (List.not_mem_nil hp).elim, rfl⟩
  · cases hv

/-- A payload enters the empty channel. -/
theorem stageOk_handOver_data {bytes : Bytes} {frames : List Bytes}
    (h : StageOk x (seen limit w) (.sending (bytes :: frames) rest count))
    (hreceiving : w.receiving = true)
    (hv : handOver w bytes (sendRest frames rest count) = some v) :
    StageOk x (seen limit v) v.stage := by
  obtain ⟨hopen, r, value, payloads, pending, hframes, hf⟩ := h
  cases pending with
  | nil => cases hframes
  | cons payload pending =>
    simp only [List.map_cons, List.cons.injEq] at hframes
    obtain ⟨rfl, rfl⟩ := hframes
    simp only [handOver, hreceiving, if_true] at hv
    split at hv
    · next hempty =>
      have hyielded : w.yielded = frame 1 (x.codec.metadata value) :: payloads.map (frame 2) := by
        have hsent : w.yielded ++ w.channel = _ := hf.sent
        rwa [List.isEmpty_iff.mp hempty, List.append_nil] at hsent
      have hassoc : payloads ++ payload :: pending = (payloads ++ [payload]) ++ pending := by simp
      have hnext : Forwarded x { seen limit w with sent := w.yielded ++ [frame 2 payload] } r value
          (payloads ++ [payload]) pending rest count := by
        refine ⟨⟨hf.uploaded, hf.response, hf.kept, hf.answered, hf.revision, hf.head⟩, ?_,
          hassoc ▸ hf.cut, hassoc ▸ hf.body, hf.total, hassoc ▸ hf.length, hf.counted⟩
        rw [hyielded]
        simp
      cases hv
      exact stageOk_sendRest hopen hnext
    · cases hv

end body

structure Untouched (w v : World) : Prop where
  clock : v.clock = w.clock
  sender : v.sender = w.sender
  receiving : v.receiving = w.receiving
  ended : v.ended = w.ended

theorem openResponse_untouched (w : World) (r : Upstream) (revision : Option ℕ) :
    Untouched w (openResponse x w r revision) := by
  unfold openResponse
  split <;> exact ⟨rfl, rfl, rfl, rfl⟩

theorem pull_untouched (w : World) (rest : List BodyItem) (count : ℕ) :
    Untouched w (pull x w rest count) := by
  unfold ResponseStream.pull
  split
  · exact ⟨rfl, rfl, rfl, rfl⟩
  · exact ⟨rfl, rfl, rfl, rfl⟩
  · split <;> exact ⟨rfl, rfl, rfl, rfl⟩

theorem handOver_untouched {bytes : Bytes} {stage : Stage} (hv : handOver w bytes stage = some v) :
    Untouched w v := by
  unfold handOver at hv
  split at hv
  · split at hv
    · cases hv
      exact ⟨rfl, rfl, rfl, rfl⟩
    · cases hv
  · cases hv
    exact ⟨rfl, rfl, rfl, rfl⟩

theorem work_same {e : Event} (hv : work x w e = some v) :
    v.clock = w.clock ∧ v.receiving = w.receiving ∧ v.ended = w.ended := by
  have same : ∀ {u}, Untouched u v → u.clock = w.clock → u.receiving = w.receiving →
    u.ended = w.ended →
      v.clock = w.clock ∧ v.receiving = w.receiving ∧ v.ended = w.ended :=
    fun hu hc hr he => ⟨hu.clock.trans hc, hu.receiving.trans hr, hu.ended.trans he⟩
  cases e with
  | absorbed revision =>
    simp only [work] at hv
    split at hv
    · cases hv
      exact same (openResponse_untouched _ _ _) rfl rfl rfl
    · cases hv
  | pull =>
    simp only [work] at hv
    split at hv
    · cases hv
      exact same (pull_untouched _ _ _) rfl rfl rfl
    · cases hv
  | handOver =>
    simp only [work] at hv
    split at hv
    · exact same (handOver_untouched hv) rfl rfl rfl
    · exact same (handOver_untouched hv) rfl rfl rfl
    · cases hv
  | _ =>
    simp only [work] at hv
    repeat' split at hv
    all_goals
      cases hv
      try exact ⟨rfl, rfl, rfl⟩

theorem jsonFrame_small {kind : UInt8} {json : Bytes} (h : json.length ≤ maxMetadataBytes) :
    jsonFrame kind json = .ok (frame kind json) := by
  simp [jsonFrame, Nat.not_lt.mpr h]

/-- The last frame is always made. -/
theorem terminalFrame_small (hcodec : x.codec.Bounded) {status : RequestStatus}
    (hsmall : Small status.diagnostics)
    (herror : ∀ e ∈ status.error, e.message.utf8ByteSize ≤ 256 ∧
      e.diagnostics = some status.diagnostics) :
    (terminalFrame x.codec status).toOption = some (lastFrame x.codec status) := by
  unfold terminalFrame lastFrame
  cases hstatus : status.error with
  | none => simp [jsonFrame_small (hcodec.diagnostics _ hsmall), Except.toOption]
  | some e =>
    obtain ⟨hshort, hd⟩ := herror e hstatus
    have hlen : (x.codec.error e).length ≤ maxMetadataBytes := by
      apply hcodec.error e hshort
      rw [hd]
      rintro d ⟨⟩
      exact hsmall
    simp [jsonFrame_small hlen, Except.toOption]

theorem closed_status (hopen : w.record.finished = none) (error : Option TransportError) :
    (closed w error).1.finished ≠ none ∧
      (closed w error).1.error = error.map (·.withDiagnostics (closed w error).1.diagnostics) ∧
      (closed w error).2 = (closed w error).1.statusLocked := by
  have hopen' := (update_open hopen (markBody w.record.started w.clock)).2
  simp [closed, Record.finish, hopen', Record.close]

/-- The final diagnostics are those of the open record with their times and the last phase. -/
theorem closed_diagnostics (hnow : w.clock / 1000000 ≤ limit) (hopen : w.record.finished = none)
    (error : Option TransportError) :
    Retimed w.record.diagnostics (closed w error).1.diagnostics ∧
      (Kept x limit w.record.diagnostics → Kept x limit (closed w error).1.diagnostics) ∧
      (error = none → (closed w error).1.diagnostics.phase = .complete) := by
  obtain ⟨hd, hopen'⟩ := update_open hopen (markBody w.record.started w.clock)
  generalize hr : w.record.update (markBody w.record.started w.clock) = r at hd hopen'
  have hclosed : (closed w error).1 = r.close w.clock error := by
    simp [closed, hr, Record.finish, hopen']
  have hretimed : Retimed w.record.diagnostics (r.timed w.clock r.diagnostics) := by
    rw [hd]
    exact (retimed_markBody _ _ _).trans (retimed_timed _ _ _)
  have hkept : Kept x limit w.record.diagnostics →
      Kept x limit (r.timed w.clock r.diagnostics) := by
    intro h
    rw [hd]
    exact (h.markBody _ hnow).timed _ hnow
  rw [hclosed]
  cases error with
  | none =>
    exact ⟨⟨hretimed.profile, hretimed.delivery, hretimed.bytes, hretimed.revision⟩,
      fun h => { hkept h with }, fun _ => rfl⟩
  | some e =>
    refine ⟨hretimed, hkept, ?_⟩
    intro hnone
    cases hnone

theorem Forwarded.retimed {r : Upstream} {value : ResponseMetadata} {payloads : List Bytes}
    {count : ℕ} {record : Record} (h : Forwarded x s r value payloads [] [] count)
    (hkept : Kept x s.limit record.diagnostics)
    (hretimed : Retimed s.record.diagnostics record.diagnostics) :
    Forwarded x { s with record := record } r value payloads [] [] count :=
  ⟨⟨h.uploaded, h.response, hkept, h.answered.retimed hretimed,
      hretimed.revision.trans h.revision, h.head⟩,
    h.sent, h.cut, h.body, h.total, h.length, hretimed.bytes.trans h.counted⟩

/-- The report: the record is final, and the slot holds the frame that says so. -/
theorem report_settled (hcodec : x.codec.Bounded) (hnow : w.clock / 1000000 ≤ limit)
    {error : Option TransportError}
    (h : StageOk x (seen limit w) (.stopped error)) :
    (report x w error).terminal = some (lastFrame x.codec (report x w error).record.statusLocked) ∧
      Settled x (seen limit (report x w error)) := by
  obtain ⟨hunfinished, hbegun⟩ := h.begun
  have hopen : w.record.finished = none := hunfinished.finished
  obtain ⟨hfinal, herror, hstatus⟩ := closed_status hopen error
  obtain ⟨hretimed, hkept, hphase⟩ := closed_diagnostics (x := x) hnow hopen error
  have hk := hkept hunfinished.kept
  refine ⟨?_, hfinal, ?_⟩
  · rw [report, hstatus]
    refine terminalFrame_small hcodec hk.toSmall ?_
    intro e he
    cases error with
    | none => simp [Record.statusLocked, herror] at he
    | some error =>
      simp only [Record.statusLocked, herror, Option.map_some, Option.mem_def,
        Option.some.injEq] at he
      subst he
      exact ⟨h.2.1, rfl⟩
  · cases error with
    | none =>
      obtain ⟨-, r, value, payloads, count, hf⟩ := h
      exact .inr ⟨herror, hphase rfl, r, value, payloads, count, hf.retimed hk hretimed⟩
    | some error =>
      obtain ⟨head, payloads, hb⟩ := hbegun
      exact .inl ⟨_, head, payloads, herror, rfl, hb⟩

theorem Invariant.at {stage : Stage} (h : Invariant x limit w) (hstage : w.stage = stage)
    (hreported : stage ≠ .reported) (hgone : stage ≠ .gone) : StageOk x (seen limit w) stage := by
  subst hstage
  exact h.running hreported hgone

/-- A step of the worker before its report. -/
theorem Invariant.advance {stage : Stage} (h : Invariant x limit w) (hstage : w.stage = stage)
    (hgone : stage ≠ .gone) (hsender : v.sender = w.sender) (hended : v.ended = w.ended)
    (hok : StageOk x (seen limit v) v.stage) : Invariant x limit v := by
  have hopen : w.sender = true ∧ w.ended = false :=
    h.sender.resolve_left fun hg => hgone (hstage.symm.trans hg)
  refine ⟨.inr ⟨hsender.trans hopen.1, hended.trans hopen.2⟩, fun _ _ => hok, ?_, ?_⟩
  · rintro (hv | hv) -
    all_goals
      rw [hv] at hok
      exact hok.elim
  · intro hv
    rw [hended, hopen.2] at hv
    cases hv

/-- The worker gives up with an error. -/
theorem Invariant.stop {stage : Stage} (h : Invariant x limit w) (hstage : w.stage = stage)
    (hreported : stage ≠ .reported) (hgone : stage ≠ .gone) {e : TransportError}
    (he : e.message.utf8ByteSize ≤ 256) : Invariant x limit (w.goto (.stopped (some e))) := by
  obtain ⟨hunfinished, hbegun⟩ := (h.at hstage hreported hgone).begun
  exact h.advance hstage hgone rfl rfl ⟨hunfinished, he, hbegun⟩

/-- The clock before the step and the revision that it brings keep to `limit`. -/
def Within (limit : ℕ) (w : World) (e : Event) (_ : World) : Prop :=
  w.clock / 1000000 ≤ limit ∧
    ∀ revision, e = .cookies revision ∨ e = .absorbed (some revision) → revision.toNat ≤ limit

theorem work_step (hcodec : x.codec.Bounded) (h : Invariant x limit w)
    (hreceiving : w.receiving = true)
    {e : Event} (hwithin : Within limit w e v) (hv : work x w e = some v) :
    Invariant x limit v := by
  obtain ⟨hnow, hrevised⟩ := hwithin
  cases e with
  | admitted =>
    simp only [work] at hv
    split at hv
    next hstage =>
      cases hv
      have hw : Waiting x (seen limit w) x.diagnostics.tlsProfile := h.at hstage nofun nofun
      exact h.advance hstage nofun rfl rfl
        (hw.update_same (leaveQueue _ _) (hw.kept.leaveQueue _ hnow) rfl rfl)
    next => cases hv
  | locate =>
    simp only [work] at hv
    split at hv
    next hstage =>
      cases hv
      have hw : Waiting x (seen limit w) x.diagnostics.tlsProfile := h.at hstage nofun nofun
      have hbytes : (locate x.owner w.record.diagnostics).responseBytes = 0 := by
        cases x.owner <;> exact hw.bytes
      have hl := hw.update (locate x.owner) (hw.kept.locate _) hbytes
      rw [locate_profile hw.profile] at hl
      exact h.advance hstage nofun rfl rfl hl
    next => cases hv
  | cookies revision =>
    simp only [work] at hv
    split at hv
    next hstage =>
      cases hv
      have hw : Waiting x (seen limit w) x.owner.profile.name := h.at hstage nofun nofun
      have hl : StageOk x (seen limit (w.update (setCookies revision))) .located :=
        hw.update_same (setCookies revision) (hw.kept.setCookies (hrevised _ (.inl rfl))) rfl rfl
      rw [← hstage] at hl
      exact h.advance hstage nofun rfl rfl hl
    next => cases hv
  | dispatched =>
    simp only [work] at hv
    split at hv
    next hstage =>
      cases hv
      have hw : Waiting x (seen limit w) x.owner.profile.name := h.at hstage nofun nofun
      exact h.advance hstage nofun rfl rfl (hw.update_same markDispatched { hw.kept with } rfl rfl)
    next => cases hv
  | uploadBytes count =>
    simp only [work] at hv
    split at hv
    next hstage =>
      split at hv
      next hcount =>
        cases hv
        have hw : Waiting x (seen limit w) x.owner.profile.name := h.at hstage nofun nofun
        have hl : StageOk x (seen limit (w.update (countRequest count))) .working :=
          hw.update_same (countRequest count) (hw.kept.countRequest hcount) rfl rfl
        rw [← hstage] at hl
        exact h.advance hstage nofun rfl rfl hl
      next => cases hv
    next hstage =>
      split at hv
      next hcount =>
        cases hv
        obtain ⟨hw, hdelivery⟩ : StageOk x (seen limit w) .uploading := h.at hstage nofun nofun
        have hl : StageOk x (seen limit (w.update (countRequest count))) .uploading :=
          ⟨hw.update_same (countRequest count) (hw.kept.countRequest hcount) rfl rfl,
            update_delivery hw.finished (f := countRequest count) hdelivery⟩
        rw [← hstage] at hl
        exact h.advance hstage nofun rfl rfl hl
      next => cases hv
    next => cases hv
  | uploadDone =>
    simp only [work] at hv
    split at hv
    next hstage =>
      cases hv
      have hw : Waiting x (seen limit w) x.owner.profile.name := h.at hstage nofun nofun
      have hl : StageOk x { seen limit w with uploaded := true } .working :=
        ⟨⟨hw.finished, hw.kept⟩, hw.sent, hw.bytes, hw.profile⟩
      rw [← hstage] at hl
      exact h.advance hstage nofun rfl rfl hl
    next hstage =>
      cases hv
      obtain ⟨hw, hdelivery⟩ : StageOk x (seen limit w) .uploading := h.at hstage nofun nofun
      exact h.advance hstage nofun rfl rfl
        ⟨⟨⟨hw.finished, hw.kept⟩, hw.sent, hw.bytes, hw.profile⟩, hdelivery, rfl⟩
    next => cases hv
  | respond response =>
    simp only [work] at hv
    split at hv
    next hstage =>
      cases hv
      have hw : Waiting x (seen limit w) x.owner.profile.name := h.at hstage nofun nofun
      have hl :=
        hw.update_same (markResponse w.record.started w.clock) (hw.kept.markResponse _ hnow)
        rfl rfl
      have hdelivery : (w.record.update
          (markResponse w.record.started w.clock)).diagnostics.delivery = .responseStarted :=
        update_delivery (s := seen limit w) hw.finished rfl
      refine h.advance hstage nofun rfl rfl ?_
      cases huploaded : w.uploaded with
      | true => exact ⟨⟨⟨hl.finished, hl.kept⟩, hl.sent, hl.bytes, hl.profile⟩,
        hdelivery, huploaded⟩
      | false => exact ⟨⟨⟨hl.finished, hl.kept⟩, hl.sent, hl.bytes, hl.profile⟩, hdelivery⟩
    next => cases hv
  | fail fault =>
    simp only [work] at hv
    split at hv
    next hstage => cases hv; exact h.stop hstage nofun nofun fault.fixed
    next hstage => cases hv; exact h.stop hstage nofun nofun fault.fixed
    next hstage => cases hv; exact h.stop hstage nofun nofun fault.fixed
    next hstage => cases hv; exact h.stop hstage nofun nofun fault.fixed
    next hstage => cases hv; exact h.stop hstage nofun nofun fault.fixed
    next => cases hv
  | absorbed revision =>
    simp only [work] at hv
    split at hv
    next response hstage hresponse =>
      cases hv
      obtain ⟨hw, hdelivery, huploaded⟩ : StageOk x (seen limit w) .opening :=
        h.at hstage nofun nofun
      have hle : ∀ n ∈ revision, n.toNat ≤ limit := by
        rintro n ⟨⟩
        exact hrevised n (.inr rfl)
      have hl : Waiting x (seen limit (w.update (startBody revision))) x.owner.profile.name :=
        hw.update_same (startBody revision) (hw.kept.startBody hle) rfl rfl
      have hrevision : (w.update (startBody revision)).record.diagnostics.cookieRevision =
          revision.map UInt64.toNat :=
        congrArg Diagnostics.cookieRevision (update_open hw.finished (startBody revision)).1
      have hok := stageOk_openResponse (w := w.update (startBody revision)) hnow hl
        (update_delivery
          (f := startBody revision) hw.finished hdelivery) huploaded hresponse hrevision
      have hsame := openResponse_untouched (x := x) (w.update (startBody revision)) response
        (revision.map UInt64.toNat)
      exact h.advance hstage nofun hsame.sender hsame.ended hok
    next => cases hv
  | pull =>
    simp only [work] at hv
    split at hv
    next rest count hstage =>
      cases hv
      obtain ⟨hopen, r, value, payloads, hf⟩ : StageOk x (seen limit w) (.pulling rest count) :=
        h.at hstage nofun nofun
      have hsame := pull_untouched (x := x) w rest count
      exact h.advance hstage nofun hsame.sender hsame.ended (stageOk_pull hopen hf)
    next => cases hv
  | handOver =>
    simp only [work] at hv
    split at hv
    next head response hstage hresponse =>
      have hsame := handOver_untouched hv
      exact h.advance hstage nofun hsame.sender hsame.ended
        (stageOk_handOver_head (h.at hstage nofun nofun) hresponse hreceiving hv)
    next frame frames rest count _ hstage =>
      have hsame := handOver_untouched hv
      exact h.advance hstage nofun hsame.sender hsame.ended
        (stageOk_handOver_data (h.at hstage nofun nofun) hreceiving hv)
    next => cases hv
  | stop signal =>
    simp only [work] at hv
    split at hv
    next hawaits =>
      cases hv
      have hshort : signal.error.message.utf8ByteSize ≤ 256 := by
        cases signal <;> exact fromCode_short _
      refine h.stop rfl ?_ ?_ hshort
      all_goals
        intro hstage
        rw [hstage] at hawaits
        cases hawaits
    next => cases hv
  | report =>
    simp only [work] at hv
    split at hv
    next error hstage =>
      cases hv
      obtain ⟨hsender, hended⟩ := h.sender.resolve_left fun hg => nomatch hstage.symm.trans hg
      have hsettled := report_settled hcodec hnow (h.at hstage nofun nofun)
      refine ⟨.inr ⟨hsender, hended⟩, fun hne => absurd rfl hne, fun _ _ => hsettled, ?_⟩
      intro hv
      exact nomatch hended.symm.trans hv
    next => cases hv
  | leave =>
    simp only [work] at hv
    split at hv
    next hstage =>
      cases hv
      obtain ⟨-, hended⟩ := h.sender.resolve_left fun hg => nomatch hstage.symm.trans hg
      obtain ⟨hterminal, hsettled⟩ := h.reported (.inl hstage) hended
      have hfinal : w.record.finished ≠ none := hsettled.1
      have hsame : (w.record.finish w.clock (some (.fromCode .cancelled))).1 = w.record := by
        rw [finish_finished hfinal]
      refine ⟨.inl rfl, fun _ hne => absurd rfl hne, fun _ _ => ?_, ?_⟩
      · simp only [seen, hsame]
        exact ⟨hterminal, hsettled⟩
      · intro hv
        exact nomatch hended.symm.trans hv
    next => cases hv
  | tick elapsed => cases hv
  | receive => cases hv
  | dropBody => cases hv

/-- A consumer that has not gone sees the invariant; one that has gone never reaches the end. -/
def Observed (x : Exchange) (limit : ℕ) (w : World) : Prop :=
  w.receiving = true ∧ Invariant x limit w ∨ w.receiving = false ∧ w.ended = false

/-- Reading moves a frame on, or ends the stream with the last one. -/
theorem receive_step (h : Invariant x limit w) (hreceiving : w.receiving = true)
    (hv : consume w .receive = some v) : v.receiving = true ∧ Invariant x limit v := by
  simp only [consume] at hv
  split at hv
  next hopen =>
    have hended : w.ended = false := by simpa [hreceiving] using hopen
    split at hv
    next bytes channel hchannel =>
      cases hv
      have hseen : seen limit { w with channel := channel, yielded := w.yielded ++ [bytes] } =
          seen limit w := by
        simp [seen, hchannel]
      refine ⟨hreceiving, h.sender, ?_, ?_, ?_⟩
      · rw [hseen]
        exact h.running
      · rw [hseen]
        exact h.reported
      · intro he
        exact nomatch hended.symm.trans he
    next hchannel =>
      split at hv
      next => cases hv
      next hsender =>
        cases hv
        have hgone : w.stage = .gone := h.sender.resolve_right fun hs => hsender hs.1
        obtain ⟨hterminal, hsettled⟩ := h.reported (.inr hgone) hended
        refine ⟨hreceiving, .inl hgone, fun _ hne => absurd hgone hne, nofun,
          fun _ => ⟨w.yielded, ?_, ?_⟩⟩
        · simp [hterminal]
        · have hseen :
              seen limit w = { seen limit w with sent := w.yielded } := by simp [seen, hchannel]
          rw [hseen] at hsettled
          exact hsettled
  next => cases hv

theorem consume_step (h : Observed x limit w) {e : Event} (hv : consume w e = some v) :
    Observed x limit v := by
  cases e with
  | tick elapsed =>
    cases hv
    rcases h with ⟨hopen, hinv⟩ | hgone
    · exact .inl ⟨hopen, hinv.sender, hinv.running, hinv.reported, hinv.ended⟩
    · exact .inr hgone
  | receive =>
    rcases h with ⟨hopen, hinv⟩ | ⟨hgone, -⟩
    · exact .inl (receive_step hinv hopen hv)
    · simp [consume, hgone] at hv
  | dropBody =>
    simp only [consume] at hv
    split at hv
    next => cases hv
    next hended =>
      cases hv
      exact .inr ⟨rfl, by simpa using hended⟩
  | _ => cases hv

theorem invariant_initial (hclock : x.clock / 1000000 ≤ limit) :
    Invariant x limit (.initial x) :=
  ⟨.inr ⟨rfl, rfl⟩, fun _ _ => ⟨⟨rfl, kept_diagnostics hclock⟩, rfl, rfl, rfl⟩, nofun, nofun⟩

theorem observed_step (hcodec : x.codec.Bounded) (h : Observed x limit w) {e : Event}
    (hwithin : Within limit w e v) (hv : next x w e = some v) : Observed x limit v := by
  unfold next at hv
  split at hv
  next u hwork =>
    cases hv
    obtain ⟨-, hreceiving, hended⟩ := work_same hwork
    rcases h with ⟨hopen, hinv⟩ | ⟨hgone, hend⟩
    · exact .inl ⟨hreceiving.trans hopen, work_step hcodec hinv hopen hwithin hwork⟩
    · exact .inr ⟨hreceiving.trans hgone, hended.trans hend⟩
  next => exact consume_step h hv

theorem clock_step {e : Event} (hv : next x w e = some v) : w.clock ≤ v.clock := by
  unfold next at hv
  split at hv
  next u hwork =>
    cases hv
    exact Nat.le_of_eq (work_same hwork).1.symm
  next =>
    cases e with
    | tick elapsed =>
      cases hv
      exact Nat.le_add_right _ _
    | receive =>
      simp only [consume] at hv
      repeat' split at hv
      all_goals
        cases hv
        try exact Nat.le_refl _
    | dropBody =>
      simp only [consume] at hv
      split at hv
      · cases hv
      · cases hv
        exact Nat.le_refl _
    | _ => cases hv

/-- A run keeps to the largest of its last clock and its revisions. -/
theorem along_within {es : List Event} (hrun : (machine x).run w es = some v)
    (hclock : v.clock / 1000000 ≤ limit)
    (hrevised : ∀ revision, .cookies revision ∈ es ∨ .absorbed (some revision) ∈ es →
      revision.toNat ≤ limit) :
    w.clock ≤ v.clock ∧ (machine x).Along (Within limit) w es := by
  induction es generalizing w with
  | nil =>
    cases hrun
    exact ⟨Nat.le_refl _, trivial⟩
  | cons e es ih =>
    obtain ⟨u, hu, hlater⟩ := (machine x).run_cons_iff.mp hrun
    obtain ⟨hle, hrest⟩ := ih hlater fun revision hmem =>
      hrevised revision (hmem.imp (List.mem_cons_of_mem _) (List.mem_cons_of_mem _))
    have hmono : w.clock ≤ v.clock := Nat.le_trans (clock_step hu) hle
    refine ⟨hmono, ?_⟩
    intro t ht
    have hsame : t = u := Option.some.inj (ht.symm.trans hu)
    subst hsame
    refine ⟨⟨Nat.le_trans (Nat.div_le_div_right hmono) hclock, ?_⟩, hrest⟩
    rintro revision (rfl | rfl)
    · exact hrevised revision (.inl List.mem_cons_self)
    · exact hrevised revision (.inr List.mem_cons_self)

theorem observed_run (hcodec : x.codec.Bounded) {es : List Event}
    (hrun : (machine x).run (.initial x) es = some w) (hclock : w.clock / 1000000 ≤ limit)
    (hrevised : ∀ revision, .cookies revision ∈ es ∨ .absorbed (some revision) ∈ es →
      revision.toNat ≤ limit) : Observed x limit w := by
  obtain ⟨hle, halong⟩ := along_within hrun hclock hrevised
  have hstart : x.clock / 1000000 ≤ limit := Nat.le_trans (Nat.div_le_div_right hle) hclock
  exact Machine.run_preserves_along (P := Observed x limit)
    (fun _ _ _ hs hc hn => observed_step hcodec hs hc hn)
    (.inl ⟨rfl, invariant_initial hstart⟩) halong hrun

/-- Behind the last frame nothing changes any more. -/
theorem ended_run {fs : List Event} (hended : w.ended = true) (hgone : w.stage = .gone)
    (hrun : (machine x).run w fs = some v) :
    v.yielded = w.yielded ∧ v.record = w.record := by
  have hlast : (v.ended = true ∧ v.stage = .gone) ∧ v.yielded = w.yielded ∧
      v.record = w.record := by
    refine Machine.run_preserves (M := machine x)
      (P := fun u => (u.ended = true ∧ u.stage = .gone) ∧
      u.yielded = w.yielded ∧ u.record = w.record) ?_ ⟨⟨hended, hgone⟩, rfl, rfl⟩ hrun
    rintro u e t ⟨⟨hu, hstage⟩, hyielded, hrecord⟩ ht
    have hidle : work x u e = none := by
      cases e <;> simp [work, hstage, Stage.awaits]
    replace ht : consume u e = some t := by
      simpa [machine, next, hidle] using ht
    cases e with
    | tick elapsed =>
      cases ht
      exact ⟨⟨hu, hstage⟩, hyielded, hrecord⟩
    | receive => simp [consume, hu] at ht
    | dropBody => simp [consume, hu] at ht
    | _ => cases ht
  exact hlast.2

/-- The frames of a stream that has been read to its end. -/
structure Transcript where
  head : Option Bytes
  payloads : List Bytes
  last : Bytes

def Transcript.frames (t : Transcript) : List Bytes :=
  t.head.toList.map (frame 1) ++ (t.payloads.map (frame 2) ++ [t.last])

structure Succeeded (x : Exchange) (limit : ℕ) (w : World) (status : RequestStatus) (t : Transcript)
    (r : Upstream) (value : ResponseMetadata) : Prop where
  error : status.error = none
  last : t.last = frame 3 (x.codec.diagnostics status.diagnostics)
  phase : status.diagnostics.phase = .complete
  head : t.head = some (x.codec.metadata value)
  headOf : HeadOf x limit r value
  uploaded : w.uploaded = true
  response : w.response = some r
  clean : ∀ item ∈ r.body, item.failed = false
  content : t.payloads.flatten = r.content
  bytes : status.diagnostics.responseBytes = t.payloads.flatten.length
  kept : Kept x limit status.diagnostics
  answered : Answered x status.diagnostics
  revision : status.diagnostics.cookieRevision = value.cookieRevision

/-- A stream read to its end is a transcript, and its last frame says how the request ended. -/
theorem transcript_of_ended (hcodec : x.codec.Bounded) {es : List Event}
    (hrun : (machine x).run (.initial x) es = some w) (hended : w.ended = true)
    (hclock : w.clock / 1000000 ≤ limit)
    (hrevised : ∀ revision, .cookies revision ∈ es ∨ .absorbed (some revision) ∈ es →
      revision.toNat ≤ limit) :
    ∃ t : Transcript, w.yielded = t.frames ∧ (t.head = none → t.payloads = []) ∧
      Cut t.payloads ∧ t.payloads.flatten.length ≤ x.maxResponseBytes ∧
      w.stage = .gone ∧ w.record.finished ≠ none ∧
      ((∃ error, w.record.error = some error ∧ error.diagnostics = some w.record.diagnostics ∧
          t.last = frame 4 (x.codec.error error)) ∨
        ∃ r value, Succeeded x limit w w.record.statusLocked t r value) := by
  rcases observed_run hcodec hrun hclock hrevised with ⟨-, hinv⟩ | ⟨-, hopen⟩
  · obtain ⟨sent, hyielded, hfinal, hends⟩ := hinv.ended hended
    have hgone : w.stage = .gone := hinv.sender.resolve_right fun hs =>
      nomatch hended.symm.trans hs.2
    rcases hends with ⟨error, head, payloads, herror, hdiag, hbegun⟩ |
      ⟨herror, hphase, r, value, payloads, count, hf⟩
    · refine ⟨⟨head, payloads, frame 4 (x.codec.error error)⟩, ?_, hbegun.headed, hbegun.cut,
        hbegun.total, hgone, hfinal, .inl ⟨error, herror, hdiag, rfl⟩⟩
      rw [hyielded, show sent = _ from hbegun.sent]
      simp [Transcript.frames, lastFrame, Record.statusLocked, show w.record.error = _ from herror]
    · obtain ⟨before, hbody, hclean, hdata⟩ := hf.body
      rw [List.append_nil] at hbody hdata
      have hbegun := hf.begun
      refine ⟨⟨some (x.codec.metadata value), payloads,
        frame 3 (x.codec.diagnostics w.record.diagnostics)⟩,
        ?_, hbegun.headed, hbegun.cut, hbegun.total, hgone, hfinal, .inr ⟨r, value, ?_⟩⟩
      · rw [hyielded, show sent = _ from hf.sent]
        simp [Transcript.frames, lastFrame, Record.statusLocked,
          show w.record.error = _ from herror]
      · refine ⟨herror, rfl, hphase, rfl, hf.head, hf.uploaded, hf.response, ?_, ?_, ?_, hf.kept,
          hf.answered, hf.revision⟩
        · rw [hbody]
          exact hclean
        · rw [hdata, Upstream.content, hbody]
        · have hcounted := hf.counted
          rw [hf.length, List.append_nil] at hcounted
          exact hcounted
  · exact nomatch hended.symm.trans hopen

/-- A consumer that reads to the end gets at most one head, payloads of bounded size and number of
bytes behind it, and one last frame with the status of the request, which is final. -/
theorem stream_grammar (hcodec : x.codec.Bounded) {es : List Event}
    (hrun : (machine x).run (.initial x) es = some w) (hended : w.ended = true) :
    ∃ (t : Transcript) (status : RequestStatus), w.yielded = t.frames ∧
      (t.head = none → t.payloads = []) ∧
      (∀ payload ∈ t.payloads, 1 ≤ payload.length ∧ payload.length ≤ maxDataBytes) ∧
      t.payloads.flatten.length ≤ x.maxResponseBytes ∧
      ((∃ error, status.error = some error ∧ error.diagnostics = some status.diagnostics ∧
          t.last = frame 4 (x.codec.error error)) ∨
        (status.error = none ∧ t.last = frame 3 (x.codec.diagnostics status.diagnostics) ∧
          t.head ≠ none ∧ w.uploaded = true ∧
          ∃ r, w.response = some r ∧ (∀ item ∈ r.body, item.failed = false) ∧
            t.payloads.flatten = r.content ∧
            t.payloads.flatten.length = status.diagnostics.responseBytes)) ∧
      ∀ fs v now, (machine x).run w fs = some v →
        v.yielded = w.yielded ∧ v.record.statusAt now = status := by
  obtain ⟨t, hyielded, hheaded, hcut, htotal, hgone, hfinal, hends⟩ :=
    transcript_of_ended hcodec hrun hended (Nat.le_add_right (w.clock / 1000000) (2 ^ 64))
      fun revision _ => Nat.le_trans (Nat.le_of_lt revision.toNat_lt) (Nat.le_add_left _ _)
  refine ⟨t, w.record.statusLocked, hyielded, hheaded, hcut, htotal, ?_, ?_⟩
  · rcases hends with hfailed | ⟨r, value, hs⟩
    · exact .inl hfailed
    · refine .inr ⟨hs.error, hs.last, ?_, hs.uploaded, r, hs.response, hs.clean, hs.content,
        hs.bytes.symm⟩
      rw [hs.head]
      nofun
  · intro fs v now hlater
    obtain ⟨hsame, hrecord⟩ := ended_run hended hgone hlater
    refine ⟨hsame, ?_⟩
    rw [hrecord, statusAt_finished hfinal]

def plainHead (status : ℕ) (revision : Option ℕ) : ResponseMetadata where
  requestId := "r1"
  status := status
  headers := []
  cookieRevision := revision
  diagnostics := {
    requestId := "r1"
    attempt := 0
    traceId := "11111111111111111111111111111111"
    spanId := "1111111111111111"
    phase := .body
    delivery := .responseStarted
    queueMs := 0
    headersMs := some 0
    bodyMs := none
    totalMs := 0
    requestBytes := 0
    responseBytes := 0
    tlsProfile := "chrome_131"
    clientReused := if revision.isSome then none else some false
    contextId := revision.map fun _ => "c1"
    cookieRevision := revision }

def plainFinal (revision : Option ℕ) : Diagnostics :=
  { (plainHead 200 revision).diagnostics with
    phase := .complete, bodyMs := some 0, responseBytes := 2 }

def revisionJson : Option ℕ → String
  | none => ""
  | some revision => ",\"cookieRevision\":" ++ toString revision

def plainJson (phase bodyMs bytes : String) (revision : Option ℕ) : String :=
  "\x7b\"requestId\":\"r1\",\"attempt\":0,\"traceId\":\"11111111111111111111111111111111\"," ++
    "\"spanId\":\"1111111111111111\",\"phase\":\"" ++ phase ++
    "\",\"delivery\":\"response_started\",\"queueMs\":0,\"headersMs\":0,\"bodyMs\":" ++ bodyMs ++
    ",\"totalMs\":0,\"requestBytes\":0,\"responseBytes\":" ++ bytes ++
    ",\"tlsProfile\":\"chrome_131\"" ++
    (if revision.isSome then ",\"contextId\":\"c1\"" else ",\"clientReused\":false") ++
    revisionJson revision ++ "\x7d"

def plainHeadBytes (status : ℕ) (revision : Option ℕ) : Bytes :=
  ("\x7b\"requestId\":\"r1\",\"status\":" ++ toString status ++
    ",\"headers\":[],\"diagnostics\":" ++ plainJson "body" "null" "0" revision ++
    revisionJson revision ++ "\x7d").toUTF8.data.toList

def plainFinalBytes (revision : Option ℕ) : Bytes :=
  (plainJson "complete" "0" "2" revision).toUTF8.data.toList

def plainCodec (status : ℕ) (revision : Option ℕ) : Codec where
  metadata value := if value = plainHead status revision then plainHeadBytes status revision else []
  diagnostics d := if d = plainFinal revision then plainFinalBytes revision else []
  error _ := []

def plainExchange (status : ℕ) (revision : Option ℕ) : Exchange where
  codec := plainCodec status revision
  method := "GET"
  requestId := "r1"
  attempt := 0
  traceId := "11111111111111111111111111111111"
  spanId := "1111111111111111"
  owner :=
    if revision.isSome then .context "c1" ⟨"chrome_131", by decide⟩
    else .connection ⟨"chrome_131", by decide⟩
  requestLimit := 10
  maxResponseBytes := 10
  started := 0
  measured := 0
  queuedAt := 0
  queued := 0
  clock := 0
  requestId_short := by decide
  contextId_short := by
    cases revision with
    | none => exact nofun
    | some revision =>
      rintro contextId ⟨⟩
      decide
  traceId_hex := by decide +kernel
  spanId_hex := by decide +kernel
  requestLimit_le := by decide
  maxResponseBytes_le := by decide
  measured_le := Nat.le_refl _

def plainRun (status : ℕ) (revision : Option UInt64) : List Event :=
  [.admitted, .locate, .dispatched, .uploadDone, .respond ⟨status, [], [.chunk [104, 105]]⟩,
    .absorbed revision, .handOver, .receive, .pull, .handOver, .receive, .pull, .report, .leave,
    .receive]

theorem plainCodec_bounded (status : ℕ) {revision : Option ℕ}
    (h : (plainFinalBytes revision).length ≤ maxMetadataBytes) :
    (plainCodec status revision).Bounded := by
  constructor
  · intro d _
    show (if d = plainFinal revision then plainFinalBytes revision else []).length ≤
      maxMetadataBytes
    split
    · exact h
    · exact Nat.zero_le _
  · intro e _ _
    exact Nat.zero_le _

theorem stream_grammar_two_bytes :
    ∃ w, (machine (plainExchange 200 none)).run (.initial (plainExchange 200 none))
        (plainRun 200 none) = some w ∧ w.ended = true ∧
      w.yielded = [frame 1 (plainHeadBytes 200 none), frame 2 [104, 105],
        frame 3 (plainFinalBytes none)] ∧
      ∃ (t : Transcript) (status : RequestStatus), w.yielded = t.frames ∧
        ∀ fs v now, (machine (plainExchange 200 none)).run w fs = some v →
          v.record.statusAt now = status := by
  have hrun : ((machine (plainExchange 200 none)).run (.initial (plainExchange 200 none))
      (plainRun 200 none)).any (fun w => w.ended && w.yielded == [frame 1 (plainHeadBytes 200 none),
        frame 2 [104, 105], frame 3 (plainFinalBytes none)]) = true := by
    decide +kernel
  obtain ⟨w, hw, hboth⟩ := (Option.any_eq_true _ _).mp hrun
  simp only [Bool.and_eq_true, beq_iff_eq] at hboth
  obtain ⟨hended, hyielded⟩ := hboth
  obtain ⟨t, status, ht, -, -, -, -, hlater⟩ :=
    stream_grammar (plainCodec_bounded 200 (by decide +kernel)) hw hended
  exact ⟨w, hw, hended, hyielded, t, status, ht, fun fs v now h => (hlater fs v now h).2⟩

end ResponseTranscript
